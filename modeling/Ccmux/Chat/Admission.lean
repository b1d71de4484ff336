/- Module: Ccmux/Chat/Admission
   source: src/chat/ledger.ts (appendMessage, appendMessageOnce, admitOnce),
     src/commands/receiveChat.ts, src/chat/communicationAuthorization.ts
     (requireCommunicationAuthorization), src/chat/origin.ts (principalOrigin)
   digest: The receiver's side of a letter from another machine: its checks, and the append. -/

import Ccmux.Chat.Envelope

namespace Ccmux.Chat.Admission

open Ccmux.Chat.Envelope
open Ccmux.Chat.Identity
open Ccmux.Chat.Message

def principalOrigin (principal : ChatPrincipal) : MessageOrigin :=
  match principal with
  | .managed _ => ⟨.managed, .agent, .runtimeIdentity, none⟩
  | .codexApp _ => ⟨.codexApp, .agent, .runtimeIdentity, none⟩
  | .cli _ => ⟨.cli, .unknown, .unknown, none⟩
  | .service _ .local => ⟨.localControl, .unknown, .unknown, none⟩
  | .service _ .declaredService => ⟨.service, .unknown, .unknown, none⟩

/-- Evidence names its basis; only the admitted human channel of an application needs none. -/
def requireCommunicationAuthorization (sender : ChatPrincipal) (origin : MessageOrigin)
    (evidence : Option CommunicationAuthorization) : Bool :=
  match evidence with
  | some auth => auth.basis.isSome
  | none =>
    match sender with
    | .service _ _ =>
      origin.actor == .human && origin.assurance == .applicationAttested && origin.application.isSome
    | _ => false

/-- What is read of a registered session: `managedInput` is `supportsManagedInput`, `selection` the
stored selection of a native runtime. -/
structure Registration where
  name : String
  uuid : String
  agent : AgentKind
  native : Bool
  chatEnabled : Bool
  managedInput : Bool
  selection : Option AcceptedTurnOptions
  deriving DecidableEq, Repr

/-- The receiving machine; `appThreads` is what `resolveCodexAppPeer` finds. -/
structure Receiver where
  rcPrefix : String
  sessions : List Registration
  appThreads : String → Option CodexAppPeer
  ledger : List (Option Envelope)

/-- How the receiving process was started. -/
structure Caller where
  inSession : Bool
  authenticated : Bool

inductive Refusal where
  | transportOnly | unauthenticated | invalid | ownerTarget | unauthorized | otherMachine
  | sessionGone | mismatch | cannotReceive | appUnavailable
  deriving DecidableEq, Repr

def receiveManaged (r : Receiver) (target : ManagedPeer) : Except Refusal Unit :=
  match r.sessions.find? fun row => row.name == target.session with
  | none => .error .sessionGone
  | some session =>
    if session.agent ≠ target.agent ∨ session.uuid ≠ target.threadId then .error .mismatch
    else if !session.chatEnabled || !session.managedInput then .error .cannotReceive
    else .ok ()

def receiveApp (r : Receiver) (target : CodexAppPeer) : Except Refusal Unit :=
  match r.appThreads target.threadId with
  | none => .error .appUnavailable
  | some current => if current.threadId ≠ target.threadId then .error .mismatch else .ok ()

/-- The checks of `cmdReceiveChat` before the append. -/
def receiveGate (r : Receiver) (caller : Caller) (raw : Option Envelope) : Except Refusal Envelope :=
  if caller.inSession then .error .transportOnly
  else if !caller.authenticated then .error .unauthenticated
  else
    match raw with
    | none => .error .invalid
    | some message =>
      let basis := message.communicationAuthorization.bind CommunicationAuthorization.basis
      let unproved := !requireCommunicationAuthorization message.sender
          (principalOrigin message.sender) message.communicationAuthorization ||
        (basis != some .userInstruction && message.communicationReceipt.isNone)
      match message.target with
      | .managed target =>
        if unproved then .error .unauthorized
        else if target.machine ≠ r.rcPrefix then .error .otherMachine
        else (receiveManaged r target).map fun _ => message
      | .codexApp target =>
        if unproved then .error .unauthorized
        else if target.machine ≠ r.rcPrefix then .error .otherMachine
        else (receiveApp r target).map fun _ => message
      | _ => .error .ownerTarget

/-- The session a letter without options takes its selection from. -/
def selects (r : Receiver) (msg : Envelope) : Option Registration :=
  match msg.target, msg.turnOptions with
  | .managed target, none =>
    if target.machine = r.rcPrefix then
      (r.sessions.find? fun row =>
        row.name == target.session && row.uuid == target.threadId && row.agent == target.agent).filter
          Registration.native
    else none
  | _, _ => none

/-- The record `appendMessage` writes; without a stored selection it throws. -/
def appendMessage (r : Receiver) (msg : Envelope) : Option Envelope :=
  match selects r msg with
  | none => some msg
  | some session =>
    session.selection.map fun selected => { msg with turnOptions := some selected }

/-- Every field a caller supplies agrees; the recipient may have filled in the options. -/
def sameRequest (prior msg : Envelope) : Bool :=
  decide (({ prior with turnOptions := none } : Envelope) = { msg with turnOptions := none }) &&
    (msg.turnOptions.isNone || decide (prior.turnOptions = msg.turnOptions))

inductive Verdict where
  | duplicate | conflict | unavailable
  | append (row : Envelope)
  deriving DecidableEq, Repr

/-- Check and append, over the ledger as it was read under the lock. -/
def admitOnce (r : Receiver) (seen : List (Option Envelope)) (msg : Envelope) : Verdict :=
  match seen.find? fun slot => slot.any fun prior => prior.id == msg.id with
  | some (some prior) => if sameRequest prior msg then .duplicate else .conflict
  | _ =>
    match appendMessage r msg with
    | some row => .append row
    | none => .unavailable

/-- The exit code of the receiving process. -/
def Verdict.code : Verdict → Int
  | .duplicate | .append _ => 0
  | .conflict | .unavailable => 1

def Verdict.store (ledger : List (Option Envelope)) : Verdict → List (Option Envelope)
  | .append row => ledger ++ [some row]
  | _ => ledger

/-- A whole run of the receiving process, with nobody between its read and its append. -/
def cmdReceiveChat (r : Receiver) (caller : Caller) (raw : Option Envelope) :
    Int × List (Option Envelope) :=
  match receiveGate r caller raw with
  | .error _ => (1, r.ledger)
  | .ok msg =>
    let verdict := admitOnce r r.ledger msg
    (verdict.code, verdict.store r.ledger)

variable {r : Receiver} {msg : Envelope}

/-- What passes the checks is the letter that came. -/
theorem receiveGate_passed {caller : Caller} {passed : Envelope}
    (h : receiveGate r caller (some msg) = .ok passed) : passed = msg := by
  have hmap : ∀ checked : Except Refusal Unit,
      (checked.map fun _ => msg) = .ok passed → passed = msg := by
    intro checked hchecked
    cases checked with
    | error refusal => cases hchecked
    | ok _ => exact (Except.ok.inj hchecked).symm
  simp only [receiveGate] at h
  split at h
  · cases h
  · split at h
    · cases h
    · split at h
      · split at h
        · cases h
        · split at h
          · cases h
          · exact hmap _ h
      · split at h
        · cases h
        · split at h
          · cases h
          · exact hmap _ h
      · cases h

variable {row : Envelope} {ledger seen : List (Option Envelope)} {id : String}

theorem appendMessage_id (h : appendMessage r msg = some row) :
    row.id = msg.id := by
  unfold appendMessage at h
  split at h
  · rw [← Option.some.inj h]
  · obtain ⟨selected, _, rfl⟩ := Option.map_eq_some_iff.mp h
    rfl

theorem appendMessage_same (h : appendMessage r msg = some row) :
    sameRequest row msg = true := by
  unfold appendMessage at h
  cases hselects : selects r msg with
  | none =>
    rw [hselects] at h
    rw [← Option.some.inj h]
    simp [sameRequest]
  | some session =>
    rw [hselects] at h
    obtain ⟨selected, _, rfl⟩ := Option.map_eq_some_iff.mp h
    have hnone : msg.turnOptions = none := by
      unfold selects at hselects
      split at hselects
      · assumption
      · cases hselects
    simp [sameRequest, hnone]

theorem find_stored {found : Option Envelope}
    (h : (ledger.find? fun slot => slot.any fun prior => prior.id == id) = some found) :
    ∃ prior, found = some prior ∧ some prior ∈ ledger ∧ prior.id = id := by
  have hmem := List.mem_of_find?_eq_some h
  have htest := List.find?_some h
  cases found with
  | none => simp at htest
  | some prior => exact ⟨prior, rfl, hmem, by simpa using htest⟩

theorem find_absent (h : (ledger.find? fun slot => slot.any fun prior => prior.id == id) = none)
    (prior : Envelope)
    (hmem : some prior ∈ ledger) : prior.id ≠ id := by
  have hnot := List.find?_eq_none.mp h (some prior) hmem
  simpa using hnot

theorem admitOnce_stored (hstored : ∃ prior, some prior ∈ seen ∧ prior.id = msg.id)
    (hsame : ∀ prior, some prior ∈ seen → prior.id = msg.id → sameRequest prior msg = true) :
    admitOnce r seen msg = .duplicate := by
  unfold admitOnce
  cases hfind : seen.find? fun slot => slot.any fun prior => prior.id == msg.id with
  | none =>
    obtain ⟨prior, hmem, hid⟩ := hstored
    exact absurd hid (find_absent hfind prior hmem)
  | some found =>
    obtain ⟨prior, rfl, hmem, hid⟩ := find_stored hfind
    simp [hsame prior hmem hid]

theorem admitOnce_new (h : ∀ prior, some prior ∈ seen → prior.id ≠ msg.id) :
    admitOnce r seen msg = .unavailable ∨
      ∃ row, admitOnce r seen msg = .append row ∧ row.id = msg.id ∧ sameRequest row msg = true := by
  unfold admitOnce
  cases hfind : seen.find? fun slot => slot.any fun prior => prior.id == msg.id with
  | some found =>
    obtain ⟨prior, _, hmem, hid⟩ := find_stored hfind
    exact absurd hid (h prior hmem)
  | none =>
    cases happend : appendMessage r msg with
    | none => exact Or.inl rfl
    | some row => exact Or.inr ⟨row, rfl, appendMessage_id happend, appendMessage_same happend⟩

end Ccmux.Chat.Admission
