/- Module: Ccmux/Delegation/Application
   source: src/delegation/application.ts, src/chat/origin.ts
   digest: The durable lease of an application run: its open, its renewals and its close. -/

import Ccmux.Delegation.Schema

namespace Ccmux.Delegation.Application

open Ccmux.Chat.Identity (ChatPrincipal)

/-- What the host declares, and what the platform answers: the digest of a binding, canonical
paths (`none` throws) and the text of an instant in milliseconds. -/
structure Host where
  rcPrefix : String
  messageApplications : String → Option MessageApplication
  applicationDelegationAuthorities : List ApplicationDelegationGrant
  sha256 : MessageApplication → String
  realpathSync : String → Option String
  toISOString : Nat → String

inductive Refusal where
  | origin (reason : String)
  | delegation (message : String)
  | corruptState
  | identityMismatch
  | thrown
  deriving DecidableEq, Repr

structure OpenInput where
  operationId : String
  binding : ApplicationBinding
  conversationId : String
  runId : String
  sourceMessageRef : String
  authorizationQuote : String
  deriving DecidableEq, Repr

structure UpdateInput where
  parent : ApplicationSelector
  operationId : String
  expectedExpiresAt : Option String
  deriving DecidableEq, Repr

/-- The part of an authority that its updates change. -/
structure Result where
  expiresAt : Nat
  closedAt : Option Nat
  lastOperationId : String
  deriving DecidableEq, Repr

structure Authority extends OpenInput, Result where
  parent : ApplicationSelector
  caller : String
  bindingDigest : String
  policy : DelegatedPolicy
  issuedAt : Nat
  deadlineAt : Nat
  deriving DecidableEq, Repr

structure Operation where
  id : String
  fingerprint : UpdateInput × Bool
  result : Result
  deriving DecidableEq, Repr

structure Record extends Authority where
  operations : List Operation
  deriving DecidableEq, Repr

def Record.receipt (row : Record) : Authority := row.toAuthority

/-- The clock, each time one call reads it. -/
structure Clock where
  expiry : Nat
  deadline : Nat
  write : Nat
  ordered : expiry ≤ deadline ∧ deadline ≤ write := by decide
  deriving DecidableEq, Repr

/-- What a call answers, and the row it wrote. -/
structure Answer where
  receipt : Authority
  written : Option Record
  deriving DecidableEq, Repr

structure ApplicationOrigin extends MessageAttribution where
  revision : String
  digest : String
  deriving DecidableEq, Repr

/-- `admitMessageOrigin` for a letter to the conversation. -/
def admitMessageOrigin (m : Host) (principal : ChatPrincipal) (attribution : MessageAttribution) :
    Except Refusal ApplicationOrigin :=
  match principal, m.messageApplications attribution.applicationId with
  | .service machine _, some binding =>
    if machine ∉ binding.callers then .error (.origin "caller-not-bound")
    else if attribution.channelId ∉ binding.channels then .error (.origin "channel-not-bound")
    else if attribution.actor ∉ binding.actors then .error (.origin "actor-not-allowed")
    else .ok { attribution with revision := binding.revision, digest := m.sha256 binding }
  | .service _ _, none => .error (.origin "unknown-application")
  | _, _ => .error (.origin "unsupported-ingress")

/-- The grant that the host declares for the binding, and the digest of the application. -/
def binding (m : Host) (principal : ChatPrincipal) (input : ApplicationBinding) :
    Except Refusal (ApplicationDelegationGrant × String) := do
  let origin ← admitMessageOrigin m principal input.attribution
  match m.applicationDelegationAuthorities.find? (·.binding = input) with
  | none => .error (.delegation "Application authority binding is unavailable")
  | some grant =>
    if origin.revision ≠ input.revision then
      .error (.delegation "Application authority binding is unavailable")
    else
      match m.realpathSync grant.policy.workspace with
      | none => .error .thrown
      | some path =>
        if path ≠ grant.policy.workspace then
          .error (.delegation "Application authority workspace must be canonical")
        else .ok (grant, origin.digest)

@[grind =]
def issuer (m : Host) (principal : ChatPrincipal) (row : Authority) :
    Except Refusal ApplicationDelegationGrant := do
  let current ← binding m principal row.binding
  match principal with
  | .service machine _ =>
    if machine ≠ row.caller ∨ current.2 ≠ row.bindingDigest ∨ current.1.policy ≠ row.policy then
      .error (.delegation "Application authority issuer changed")
    else .ok current.1
  | _ => .error (.delegation "Application authority issuer changed")

/-- The schema of the journal admits 4097 operations: 4096 renewals and a close. -/
@[grind =]
def read : Option Record → Except Refusal (Option Record)
  | none => .ok none
  | some row => if row.operations.length ≤ 4097 then .ok (some row) else .error .corruptState

def exactRow (m : Host) (parent : ApplicationSelector) (journal : Option Record) :
    Except Refusal Record := do
  match ← read journal with
  | none => .error (.delegation "Application parent authority is unavailable")
  | some row =>
    if row.parent ≠ parent ∨ parent.target.machine ≠ m.rcPrefix then
      .error (.delegation "Application parent authority is unavailable")
    else .ok row

/-- Closed, out of its lease or past its deadline. -/
def Authority.Ended (row : Authority) (now : Nat) : Prop :=
  row.closedAt ≠ none ∨ row.expiresAt ≤ now ∨ row.deadlineAt ≤ now

def active (row : Authority) (clock : Clock) : Except Refusal Unit :=
  if row.closedAt ≠ none ∨ row.expiresAt ≤ clock.expiry ∨ row.deadlineAt ≤ clock.deadline then
    .error (.delegation "Application parent authority has ended")
  else .ok ()

def opened (m : Host) (caller : String) (input : OpenInput) (grant : ApplicationDelegationGrant)
    (digest generation : String) (now : Nat) : Record where
  toOpenInput := input
  parent :=
    { target :=
        { machine := m.rcPrefix
          applicationId := input.binding.applicationId
          authorityId := input.operationId }
      registrationGeneration := generation }
  caller := caller
  bindingDigest := digest
  policy := grant.policy
  issuedAt := now
  expiresAt := now + min grant.leaseMs grant.lifetimeMs
  deadlineAt := now + grant.lifetimeMs
  closedAt := none
  lastOperationId := input.operationId
  operations := []

/-- Service callers attest runs at their authenticated gateway; `journal` is the file of the
operation id and `generation` the fresh registration. -/
def openApplicationAuthority (m : Host) (principal : ChatPrincipal) (input : OpenInput)
    (generation : String) (clock : Clock) (journal : Option Record) : Except Refusal Answer := do
  let (grant, digest) ← binding m principal input.binding
  match principal with
  | .service caller _ =>
    match ← read journal with
    | some prior =>
      let _ ← issuer m principal prior.toAuthority
      if prior.toOpenInput ≠ input then
        .error (.delegation "Application authority operation conflicts")
      else
        -- Never resurrect an expired run by replaying its open operation.
        active prior.toAuthority clock
        .ok { receipt := prior.receipt, written := none }
    | none =>
      let row := opened m caller input grant digest generation clock.write
      .ok { receipt := row.receipt, written := some row }
  | _ => .error (.delegation "Application issuer must be a service")

/-- The row with the operation in its log. -/
@[grind =]
def Record.logged (row : Record) (input : UpdateInput) (close : Bool) : Record :=
  let row := { row with lastOperationId := input.operationId }
  { row with
    operations := row.operations ++
      [{ id := input.operationId, fingerprint := (input, close), result := row.toResult }] }

@[grind =]
def Record.closed (row : Record) (now : Nat) : Record :=
  { row with closedAt := row.closedAt.or (some now) }

def Record.renewed (row : Record) (leaseMs now : Nat) : Record :=
  { row with expiresAt := min (now + leaseMs) row.deadlineAt }

/-- The branch of an update whose operation id is new. -/
@[grind =]
def update (m : Host) (grant : ApplicationDelegationGrant) (input : UpdateInput) (close : Bool)
    (clock : Clock) (row : Record) : Except Refusal Record := do
  if 4097 ≤ row.operations.length then
    .error (.delegation "Application authority operation capacity reached")
  else if close then
    -- Revocation is monotonic; a retry cannot make the authority live again.
    .ok ((row.closed clock.write).logged input close)
  else
    active row.toAuthority clock
    if 4096 ≤ row.operations.length then
      .error (.delegation "Application authority operation capacity reached")
    else if input.expectedExpiresAt ≠ some (m.toISOString row.expiresAt) then
      .error (.delegation "Application authority renewal revision is stale")
    else .ok ((row.renewed grant.leaseMs clock.write).logged input close)

def updateApplicationAuthority (m : Host) (principal : ChatPrincipal) (input : UpdateInput)
    (close : Bool) (clock : Clock) (journal : Option Record) : Except Refusal Answer := do
  let row ← exactRow m input.parent journal
  let grant ← issuer m principal row.toAuthority
  if input.operationId = row.operationId then
    .error (.delegation "Application authority operation conflicts with open")
  else
    match row.operations.find? (·.id = input.operationId) with
    | some prior =>
      if prior.fingerprint ≠ (input, close) then
        .error (.delegation "Application authority operation conflicts")
      else .ok { receipt := { row.receipt with toResult := prior.result }, written := none }
    | none =>
      let next ← update m grant input close clock row
      .ok { receipt := next.receipt, written := some next }

def requireApplicationAuthority (m : Host) (principal : Option ChatPrincipal)
    (parent : ApplicationSelector) (allowEnded : Bool) (clock : Clock)
    (journal : Option Record) : Except Refusal Authority := do
  let row ← exactRow m parent journal
  match principal with
  | none => .error (.delegation "Application issuer is required")
  | some principal =>
    let _ ← issuer m principal row.toAuthority
    if !allowEnded then active row.toAuthority clock
    .ok row.toAuthority

/-- Every launch, input, wake and resident owner loop checks this durable lease. -/
def applicationAuthorityEnded (m : Host) (parent : ApplicationSelector) (clock : Clock)
    (journal : Option Record) : Bool :=
  let lease : Except Refusal Bool := do
    match ← read journal with
    | none => .ok true
    | some row =>
      if row.parent ≠ parent then .ok true
      else
        let _ ← issuer m (.service row.caller .local) row.toAuthority
        active row.toAuthority clock
        .ok false
  match lease with
  | .ok ended => ended
  | .error _ => true

end Ccmux.Delegation.Application
