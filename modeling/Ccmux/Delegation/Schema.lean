/- Module: Ccmux/Delegation/Schema
   source: src/delegation/schema.ts, src/delegation/applicationSchema.ts, src/chat/originSchema.ts
   digest: Policies, parents and grants: the data that delegation hands down. -/

import Ccmux.Chat.Identity

namespace Ccmux.Delegation

open Ccmux.Chat.Identity (ManagedPeer)

inductive Access where
  | readOnly | workspaceWrite | fullAccess
  deriving DecidableEq, Repr

/-- `readScope` and `network` are the literals `host` and `false`. -/
structure DelegatedPolicy where
  access : Access
  workspace : String
  deriving DecidableEq, Repr

/-- An application run is an attested authority, never a managed session registration. -/
structure ApplicationParent where
  machine : String
  applicationId : String
  authorityId : String
  deriving DecidableEq, Repr

/-- The `parent` of the application selector. -/
structure ApplicationSelector where
  target : ApplicationParent
  registrationGeneration : String
  deriving DecidableEq, Repr

inductive DelegationTarget where
  | managed (peer : ManagedPeer)
  | application (target : ApplicationParent)
  deriving DecidableEq, Repr

structure DelegationParent where
  target : DelegationTarget
  registrationGeneration : String
  deriving DecidableEq, Repr

/-- Host-owned grants have this shape too: exact registrations, never inferred from names. -/
structure DelegationRequest where
  parent : DelegationParent
  policy : DelegatedPolicy
  deadlineAt : Option Nat
  deriving DecidableEq, Repr

structure ChildDelegation extends DelegationRequest where
  requestId : String
  applicationAuthority : Option ApplicationSelector
  policyDigest : String
  deriving DecidableEq, Repr

inductive AttributedActor where
  | human | agent | application
  deriving DecidableEq, Repr

structure MessageAttribution where
  applicationId : String
  channelId : String
  actor : AttributedActor
  deriving DecidableEq, Repr

/-- One entry of the host's `messageApplications`; `ownerNotifications` is asked for letters to
the owner only. -/
structure MessageApplication where
  revision : String
  callers : List String
  channels : List String
  actors : List AttributedActor
  ownerNotifications : Bool := false
  deriving DecidableEq, Repr

/-- The actor is the literal `agent`. -/
structure ApplicationBinding where
  applicationId : String
  channelId : String
  revision : String
  deriving DecidableEq, Repr

def ApplicationBinding.attribution (binding : ApplicationBinding) : MessageAttribution :=
  { applicationId := binding.applicationId, channelId := binding.channelId, actor := .agent }

structure ApplicationDelegationGrant where
  binding : ApplicationBinding
  policy : DelegatedPolicy
  leaseMs : Nat
  lifetimeMs : Nat
  bounded : policy.access ≠ .fullAccess := by decide
  lease : 1000 ≤ leaseMs ∧ leaseMs ≤ 60000 := by decide
  lifetime : 1000 ≤ lifetimeMs ∧ lifetimeMs ≤ 86400000 := by decide
  deriving DecidableEq, Repr

end Ccmux.Delegation
