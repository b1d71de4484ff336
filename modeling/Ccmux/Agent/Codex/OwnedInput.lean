/- Module: Ccmux/Agent/Codex/OwnedInput
   source: src/agent/codex/owned/input.ts, src/agent/codex/owned/receipt.ts
   digest: The owner's side of the input slot: what one tick does with the input it reads. -/

import Ccmux.Runtime.Input

namespace Ccmux.Agent.Codex.OwnedInput

open Ccmux.Runtime.Input

/-- A turn the provider records, with the client id its `turn/start` carried. -/
structure ProviderTurn where
  id : String
  clientId : Option String
  deriving DecidableEq, Repr

/-- How many of the newest turns the receipt lookup reads. -/
def receiptPage : Nat := 32

/-- A positive match proves acceptance; a bounded negative one never authorizes resubmission. -/
def findOwnedCodexReceipt (turns : List ProviderTurn) (messageId : String) :
    Option ProviderTurn :=
  (turns.reverse.take receiptPage).find? fun turn => turn.clientId == some messageId

/-- What an owner reads before it submits. -/
structure OwnerEnv where
  snapshot : NativeSnapshot
  contextPending : Bool
  delegated : Bool
  typing : Bool
  gated : Bool
  paneHold : Option String
  threadHold : Option String
  threadIdle : Bool
  sameIdentity : Bool
  policy : Bool
  attachments : Bool
  dispatchedAt : String

inductive Verdict where
  | start
  | wait
  | hold (reason : String)
  | fail
  deriving DecidableEq, Repr

/-- Everything that stands between a queued input and its turn. -/
def submissionGate (env : OwnerEnv) (input : RuntimeInput) : Verdict :=
  if env.contextPending then .wait
  else if !env.snapshot.connected || env.snapshot.state != .idle ||
      env.snapshot.turn.any fun turn => turn.status == .inProgress then .wait
  else if !env.delegated && env.typing then .hold "a human typed in that pane a moment ago"
  else if !env.delegated && !env.gated then .hold "native client input could not be gated"
  else
    match (if env.delegated then none else env.paneHold), env.threadHold with
    | some reason, _ => .hold reason
    | none, some reason => .hold reason
    | none, none =>
      if !env.threadIdle then .hold "native runtime is not idle"
      else if !env.sameIdentity then .hold "managed identity changed before native submission"
      else if !env.policy then .hold "managed collaboration policy is unavailable"
      else if (input.images.any fun images => !images.isEmpty) && !env.attachments then .fail
      else .start

/-- What a tick goes on to do under the admission lock. -/
inductive OwnerNext where
  | nothing
  | hold (reason : String)
  | settle (input : RuntimeInput)
  | submit (input : RuntimeInput)
  deriving DecidableEq, Repr

/-- An interrupted dispatch: the provider's record decides what it was. -/
def settleDispatch (turns : List ProviderTurn) (input : RuntimeInput) : RuntimeInput :=
  match findOwnedCodexReceipt turns input.messageId with
  | none => { input with phase := .uncertain }
  | some receipt => { input with phase := .accepted, turnId := some receipt.id }

def applyLocked (env : OwnerEnv) (turns : List ProviderTurn) (mailbox : Option RuntimeInput) :
    OwnerNext :=
  match mailbox with
  | none => .nothing
  | some input =>
    match input.phase with
    | .accepted => .nothing
    | .dispatching => .settle (settleDispatch turns input)
    | .uncertain =>
      match findOwnedCodexReceipt turns input.messageId with
      | none => .nothing
      | some receipt => .settle { input with phase := .accepted, turnId := some receipt.id }
    | .queued =>
      match submissionGate env input with
      | .start => .submit input
      | .hold reason => .hold reason
      | .wait | .fail => .nothing

/-- The input as it is written before `turn/start`. -/
def dispatching (env : OwnerEnv) (input : RuntimeInput) : RuntimeInput :=
  { input with phase := .dispatching, dispatchedAt := some env.dispatchedAt }

/-- The input as it is written once the provider named the turn. -/
def started (input : RuntimeInput) (turnId : String) : RuntimeInput :=
  { input with phase := .accepted, turnId := some turnId }

variable {turns : List ProviderTurn}

theorem findOwnedCodexReceipt_some {messageId : String} {turn : ProviderTurn}
    (h : findOwnedCodexReceipt turns messageId = some turn) :
    turn ∈ turns ∧ turn.clientId = some messageId := by
  have hmem := List.mem_of_find?_eq_some h
  have hclient := List.find?_some h
  exact ⟨List.mem_reverse.mp (List.mem_of_mem_take hmem), by simpa using hclient⟩

variable {env : OwnerEnv} {mailbox : Option RuntimeInput}

/-- A tick settles only an interrupted dispatch, and accepts it only for a recorded turn. -/
theorem applyLocked_settle {next : RuntimeInput} (h : applyLocked env turns mailbox = .settle next)
    :
    ∃ input, mailbox = some input ∧ (input.phase = .dispatching ∨ input.phase = .uncertain) ∧
      next.messageId = input.messageId ∧
      (next.phase = .uncertain ∨
        next.phase = .accepted ∧ ∃ turn ∈ turns, turn.id = inputTurnId next ∧
          turn.clientId = some next.messageId) := by
  cases mailbox with
  | none => simp [applyLocked] at h
  | some input =>
    refine ⟨input, rfl, ?_⟩
    cases hphase : input.phase with
    | accepted => simp [applyLocked, hphase] at h
    | queued =>
      simp only [applyLocked, hphase] at h
      split at h <;> cases h
    | dispatching =>
      simp only [applyLocked, hphase, OwnerNext.settle.injEq] at h
      subst h
      cases hfind : findOwnedCodexReceipt turns input.messageId with
      | none => exact ⟨Or.inl rfl, by simp [settleDispatch, hfind], by simp [settleDispatch, hfind]⟩
      | some receipt =>
        obtain ⟨hmem, hclient⟩ := findOwnedCodexReceipt_some hfind
        refine ⟨Or.inl rfl, by simp [settleDispatch, hfind], Or.inr ?_⟩
        simp only [settleDispatch, hfind]
        exact ⟨trivial, receipt, hmem, rfl, hclient⟩
    | uncertain =>
      simp only [applyLocked, hphase] at h
      cases hfind : findOwnedCodexReceipt turns input.messageId with
      | none => simp [hfind] at h
      | some receipt =>
        simp only [hfind, OwnerNext.settle.injEq] at h
        subst h
        obtain ⟨hmem, hclient⟩ := findOwnedCodexReceipt_some hfind
        exact ⟨Or.inr rfl, rfl, Or.inr ⟨rfl, receipt, hmem, rfl, hclient⟩⟩

theorem applyLocked_submit {input : RuntimeInput}
    (h : applyLocked env turns mailbox = .submit input) :
    mailbox = some input ∧ input.phase = .queued := by
  cases mailbox with
  | none => simp [applyLocked] at h
  | some held =>
    cases hphase : held.phase with
    | accepted => simp [applyLocked, hphase] at h
    | dispatching => simp [applyLocked, hphase] at h
    | uncertain =>
      simp only [applyLocked, hphase] at h
      split at h <;> cases h
    | queued =>
      simp only [applyLocked, hphase] at h
      split at h
      · obtain rfl := OwnerNext.submit.inj h
        exact ⟨rfl, hphase⟩
      · cases h
      · cases h
      · cases h

end Ccmux.Agent.Codex.OwnedInput
