/- Module: Ccmux/Delegation/Resolve
   source: src/delegation/resolve.ts, src/delegation/cancel.ts, src/control/target.ts
   digest: How a child's delegation is resolved under its parent, and what stops it. -/

import Ccmux.Delegation.Application
import Ccmux.Delegation.Workspace

namespace Ccmux.Delegation

open Ccmux.Chat.Identity (AgentKind ManagedPeer ChatPrincipal managedPeerKey)
open Application (Refusal Clock Record requireApplicationAuthority applicationAuthorityEnded)
open Workspace (withinWorkspace)

inductive RuntimeMode where
  | tui | appServer | native
  deriving DecidableEq, Repr

/-- The mode in which the project speaks the runtime's own protocol. -/
def nativeMode : AgentKind → RuntimeMode
  | .codex => .appServer
  | _ => .native

/-- The fields of a registered session that delegation reads. -/
structure Session where
  name : String
  agent : AgentKind
  uuid : String
  runtime : RuntimeMode
  archived : Bool
  registrationGeneration : Option String
  delegation : Option ChildDelegation
  deriving DecidableEq, Repr

def hasNativeRuntime (session : Session) : Bool := session.runtime == nativeMode session.agent

structure Host extends Application.Host where
  delegationAuthorities : List DelegationRequest
  policyDigest : DelegatedPolicy → String

/-- What the host keeps on disk: the registry, the journals of the application authorities and the
requests with a stop receipt. -/
structure Disk where
  sessions : List Session := []
  journals : String → Option Record := fun _ => none
  stops : List String := []

/-- The clock as one `resolveDelegation` reads it, in the order of the source. -/
structure Readings where
  start : Nat
  require : Clock
  ended : Clock
  last : Nat
  ordered : start ≤ require.expiry ∧ require.write ≤ ended.expiry ∧ ended.write ≤ last := by decide
  deriving DecidableEq, Repr

/-- What a child inherits from: a grant of the host, an application authority, or the delegation
of a managed parent. -/
inductive Node where
  | grant (grant : DelegationRequest)
  | application (parent : ApplicationSelector) (row : Application.Authority)
  | child (delegation : ChildDelegation)
  deriving DecidableEq, Repr

structure Inherited where
  policy : DelegatedPolicy
  deadlineAt : Option Nat
  applicationAuthority : Option ApplicationSelector
  deriving DecidableEq, Repr

def Node.inherited : Node → Inherited
  | .grant row =>
    { policy := row.policy, deadlineAt := row.deadlineAt, applicationAuthority := none }
  | .application parent row =>
    { policy := row.policy, deadlineAt := some row.deadlineAt, applicationAuthority := some parent }
  | .child delegation =>
    { policy := delegation.policy
      deadlineAt := delegation.deadlineAt
      applicationAuthority := delegation.applicationAuthority }

def controlTarget (m : Host) (sessions : List Session) (target : ManagedPeer) :
    Except Refusal Session :=
  match sessions.find? (·.name = target.session) with
  | none => .error .identityMismatch
  | some session =>
    if m.rcPrefix ≠ target.machine ∨ session.uuid ≠ target.threadId ∨ session.agent ≠ target.agent
    then .error .identityMismatch
    else .ok session

/-- The delegation of a child is stopped by its authority, its deadline or a stop receipt. -/
def ChildDelegation.stopped (m : Host) (disk : Disk) (clock : Clock)
    (delegation : ChildDelegation) : Bool :=
  (delegation.applicationAuthority.any fun root =>
    applicationAuthorityEnded m.toHost root clock (disk.journals root.target.authorityId)) ||
  delegation.deadlineAt.any (· ≤ clock.write) ||
  disk.stops.contains delegation.requestId

def delegationStopped (m : Host) (disk : Disk) (clock : Clock) (session : Session) : Bool :=
  session.delegation.any (ChildDelegation.stopped m disk clock)

/-- Every stop leaves a receipt, whatever its reason. -/
def stopDelegationRequest (disk : Disk) (requestId : String) : Disk :=
  { disk with stops := requestId :: disk.stops }

def Access.rank : Access → Nat
  | .readOnly => 0
  | .workspaceWrite => 1
  | .fullAccess => 2

def narrowPolicy (parent child : DelegatedPolicy) : Except Refusal Unit :=
  if parent.access.rank < child.access.rank ∨ !withinWorkspace parent.workspace child.workspace then
    .error (.delegation "Child policy exceeds parent authority")
  else .ok ()

def isParent (principal : Option ChatPrincipal) (target : ManagedPeer) : Bool :=
  match principal with
  | some (.managed peer) => managedPeerKey peer == managedPeerKey target
  | _ => false

/-- Anyone but the parent itself answers for the root authority. -/
def requireIssuer (m : Host) (principal : Option ChatPrincipal) (target : ManagedPeer)
    (root : ApplicationSelector) (clock : Clock) (journal : Option Record) : Except Refusal Unit :=
  if isParent principal target then .ok ()
  else (requireApplicationAuthority m.toHost principal root false clock journal).map fun _ => ()

def grantFor (m : Host) (target : ManagedPeer) (registrationGeneration : String) :
    Option DelegationRequest :=
  m.delegationAuthorities.find? fun grant =>
    match grant.parent.target with
    | .managed peer =>
      managedPeerKey peer == managedPeerKey target &&
        grant.parent.registrationGeneration == registrationGeneration
    | .application _ => false

/-- The checks of the parent, and what it hands down. -/
def inherit (m : Host) (disk : Disk) (parent : DelegationParent) (principal : Option ChatPrincipal)
    (readings : Readings) : Except Refusal (Option Node) := do
  match parent.target with
  | .application target =>
    let selector := { target, registrationGeneration := parent.registrationGeneration }
    let row ← requireApplicationAuthority m.toHost principal selector false readings.require
      (disk.journals target.authorityId)
    .ok (some (.application selector row))
  | .managed target =>
    let session ← controlTarget m disk.sessions target
    if session.archived ∨ session.registrationGeneration ≠ some parent.registrationGeneration then
      .error (.delegation "Parent registration is unavailable")
    else if !hasNativeRuntime session then
      .error (.delegation "Parent has no owned native runtime")
    else
      match session.delegation with
      | none => .ok ((grantFor m target parent.registrationGeneration).map Node.grant)
      | some delegation =>
        match delegation.applicationAuthority with
        | none => .ok (some (.child delegation))
        | some root =>
          let journal := disk.journals root.target.authorityId
          requireIssuer m principal target root readings.require journal
          if applicationAuthorityEnded m.toHost root readings.ended journal then
            .error (.delegation "Parent application authority has ended")
          else .ok (some (.child delegation))

/-- The earlier of the two deadlines, where there are two. -/
def earlier : Option Nat → Option Nat → Option Nat
  | none, own => own
  | some parent, none => some parent
  | some parent, some own => some (min parent own)

def canonical (m : Host) (authority policy : DelegatedPolicy) (workspace : String) :
    Except Refusal Unit :=
  match m.realpathSync authority.workspace with
  | none => .error .thrown
  | some root =>
    if root ≠ authority.workspace then
      .error (.delegation "Policy workspace must be canonical and match the child")
    else
      match m.realpathSync policy.workspace with
      | none => .error .thrown
      | some path =>
        if path ≠ workspace then
          .error (.delegation "Policy workspace must be canonical and match the child")
        else .ok ()

/-- The child's delegation under what its parent hands down. -/
def narrow (m : Host) (runtime workspace requestId : String) (input : DelegationRequest)
    (inherited : Inherited) (now : Nat) : Except Refusal ChildDelegation := do
  canonical m inherited.policy input.policy workspace
  let policy := { input.policy with workspace }
  let deadlineAt := earlier inherited.deadlineAt input.deadlineAt
  if deadlineAt.any (· ≤ now) then
    .error (.delegation "Parent delegation deadline has expired")
  else
    narrowPolicy inherited.policy policy
    if policy.access = .fullAccess ∨ (runtime = "claude" ∧ policy.access ≠ .readOnly) then
      .error (.delegation "This runtime cannot enforce the requested policy")
    else
      .ok { input with
            policy
            deadlineAt
            requestId
            applicationAuthority := inherited.applicationAuthority
            policyDigest := m.policyDigest policy }

/-- The delegation, beside the node that it was resolved from. -/
def resolveDelegation (m : Host) (disk : Disk) (runtime mode workspace requestId : String)
    (input : DelegationRequest) (principal : Option ChatPrincipal) (readings : Readings) :
    Except Refusal (Node × ChildDelegation) := do
  if runtime ∉ ["codex", "claude"] ∨ mode ∉ ["app-server", "native"] then
    .error (.delegation "Delegation requires an owned native runtime")
  else if input.deadlineAt.any (· ≤ readings.start) then
    .error (.delegation "Delegation deadline has expired")
  else
    match ← inherit m disk input.parent principal readings with
    | none => .error (.delegation "Parent authority is not declared by this host")
    | some node =>
      let delegation ← narrow m runtime workspace requestId input node.inherited readings.last
      .ok (node, delegation)

end Ccmux.Delegation
