/- Module: Ccmux/Chat/Identity
   source: src/chat/identity.ts, src/chat/identitySchema.ts
   digest: Who sends and who receives a letter, and the string keys both are stored under. -/

import Mathlib

namespace Ccmux.Chat.Identity

inductive AgentKind where
  | claude | codex | opencode | custom
  deriving DecidableEq, Repr

def AgentKind.text : AgentKind → String
  | .claude => "claude"
  | .codex => "codex"
  | .opencode => "opencode"
  | .custom => "custom"

/-- `source` is the literal `ccmux` in every managed peer, so it is not stored. -/
structure ManagedPeer where
  machine : String
  agent : AgentKind
  session : String
  threadId : String
  deriving DecidableEq, Repr

/-- `source` and `agent` are the literals `codex-app` and `codex`. -/
structure CodexAppPeer where
  machine : String
  threadId : String
  name : Option String
  deriving DecidableEq, Repr

inductive ServiceTransport where
  | «local» | declaredService
  deriving DecidableEq, Repr

inductive ChatPrincipal where
  | managed (peer : ManagedPeer)
  | codexApp (peer : CodexAppPeer)
  | cli (machine : String)
  | service (machine : String) (transport : ServiceTransport)
  deriving DecidableEq, Repr

inductive ChatTarget where
  | managed (peer : ManagedPeer)
  | codexApp (peer : CodexAppPeer)
  | owner
  | external (name : String)
  deriving DecidableEq, Repr

/-- Durable peer key for cursors, acks and equality. -/
def managedPeerKey (peer : ManagedPeer) : String :=
  "ccmux:" ++ peer.machine ++ ":" ++ peer.agent.text ++ ":" ++ peer.session ++ ":" ++ peer.threadId

def codexAppKey (peer : CodexAppPeer) : String :=
  "codex-app:" ++ peer.machine ++ "#" ++ peer.threadId

def chatPrincipalKey : ChatPrincipal → String
  | .managed peer => managedPeerKey peer
  | .codexApp peer => codexAppKey peer
  | .cli machine => "ccmux:" ++ machine ++ ":cli"
  | .service machine _ => "ccmux:" ++ machine ++ ":cli"

@[grind =]
def chatTargetKey : ChatTarget → String
  | .managed peer => managedPeerKey peer
  | .codexApp peer => codexAppKey peer
  | .owner => "owner"
  | .external name => "external:" ++ name

/-- The sender as a named session rather than one of its lives: the thread id stays out. -/
def senderKey : ChatPrincipal → String
  | .managed peer =>
      "ccmux:" ++ peer.machine ++ ":" ++ peer.agent.text ++ ":" ++ peer.session
  | principal => chatPrincipalKey principal

def sameSender (left right : ChatPrincipal) : Bool := senderKey left == senderKey right

def samePrincipal (left right : ChatPrincipal) : Bool :=
  chatPrincipalKey left == chatPrincipalKey right

def sameTarget (left right : ChatTarget) : Bool := chatTargetKey left == chatTargetKey right

def codexAppAddress (threadId : String) : String := "app/" ++ threadId

def principalLabel : ChatPrincipal → String
  | .cli machine => "ccmux/cli@" ++ machine
  | .service machine _ => "ccmux/service@" ++ machine
  | .codexApp peer =>
      "codex-app@" ++ peer.machine ++ ":" ++ peer.name.getD "thread" ++ "#" ++ peer.threadId
  | .managed peer =>
      "ccmux/" ++ peer.agent.text ++ "@" ++ peer.machine ++ ":" ++ peer.session ++ "#" ++
        peer.threadId

def externalAddress (name : String) : String := "owner/" ++ name

def targetLabel : ChatTarget → String
  | .owner => "owner"
  | .external name => externalAddress name
  | .managed peer => principalLabel (.managed peer)
  | .codexApp peer => principalLabel (.codexApp peer)

@[simp] theorem chatTargetKey_managed (peer : ManagedPeer) :
    chatTargetKey (.managed peer) = managedPeerKey peer := rfl

@[simp] theorem chatTargetKey_codexApp (peer : CodexAppPeer) :
    chatTargetKey (.codexApp peer) = codexAppKey peer := rfl

private theorem managedPeerKey_toList (peer : ManagedPeer) :
    ∃ rest, (managedPeerKey peer).toList = 'c' :: 'c' :: rest := by
  simp only [managedPeerKey, String.toList_append, List.append_assoc]
  exact ⟨_, rfl⟩

private theorem codexAppKey_toList (peer : CodexAppPeer) :
    ∃ rest, (codexAppKey peer).toList = 'c' :: 'o' :: rest := by
  simp only [codexAppKey, String.toList_append, List.append_assoc]
  exact ⟨_, rfl⟩

theorem managedPeerKey_ne_codexAppKey (peer : ManagedPeer) (app : CodexAppPeer) :
    managedPeerKey peer ≠ codexAppKey app := by
  intro same
  obtain ⟨rest, hrest⟩ := managedPeerKey_toList peer
  obtain ⟨rest', hrest'⟩ := codexAppKey_toList app
  rw [same, hrest'] at hrest
  simp at hrest

theorem managedPeerKey_ne_owner (peer : ManagedPeer) :
    managedPeerKey peer ≠ chatTargetKey .owner := by
  intro same
  obtain ⟨rest, hrest⟩ := managedPeerKey_toList peer
  rw [same] at hrest
  simp [chatTargetKey] at hrest

theorem managedPeerKey_ne_external (peer : ManagedPeer) (name : String) :
    managedPeerKey peer ≠ chatTargetKey (.external name) := by
  intro same
  obtain ⟨rest, hrest⟩ := managedPeerKey_toList peer
  rw [same] at hrest
  simp [chatTargetKey] at hrest

end Ccmux.Chat.Identity
