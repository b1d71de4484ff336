/- Module: Ccmux/External/ResidentSchema
   source: src/external/residentSchema.ts, src/external/turnSchema.ts
   digest: The external status snapshot, and its freshness judged against a clock. -/

import Mathlib

namespace Ccmux.External

/-- A time, in milliseconds of the clock that wrote it. -/
abbrev Instant := Int

inductive ConnectionReason where
  | endpointAbsent | endpointNotListening | upgradeRefused | connectionLost | connectionUnavailable
  deriving DecidableEq, Repr

inductive TurnReason where
  | nativeStatus | notLoaded | systemError | unsupportedStatus | unsupportedProvider
  | unsupportedRuntime | notObserved | notReported | readLimit | connection (reason : ConnectionReason)
  | deadline
  deriving DecidableEq, Repr

/-- What a person can do about it, or none when there is nothing for them to do. -/
def remedyFor : TurnReason → Option String
  | .connection .endpointAbsent =>
    some "The configured control endpoint is absent. The thread owner must expose a shared Unix listener; a Desktop host using only stdio is not connectable here."
  | .connection .endpointNotListening =>
    some "The control endpoint has no listener. Check the owning host transport: stdio alone is not shared. Restore its Unix listener; do not start a second thread writer."
  | .connection .upgradeRefused =>
    some "Something answers on the control endpoint but refuses the RPC upgrade — check which app owns it."
  | .connection .connectionLost =>
    some "The control connection dropped mid-read; the next observation reconnects. Restart the Codex app if it keeps dropping."
  | .connection .connectionUnavailable =>
    some "The control endpoint failed in a way this build cannot name — connect to it by hand to see the operating system error."
  | .unsupportedRuntime =>
    some "This Codex version does not report thread status. Update the app."
  | _ => none

inductive TurnStateName where
  | working | idle | waitingApproval | waitingInput | unknown
  deriving DecidableEq, Repr

inductive Evidence where
  | observed | unknown | unavailable | stale
  deriving DecidableEq, Repr

inductive TurnSource where
  | codexAppServer | unsupported
  deriving DecidableEq, Repr

structure ExternalTurnState where
  state : TurnStateName
  evidence : Evidence
  source : TurnSource
  turnId : Option String
  startedAt : Option Instant
  observedAt : Option Instant
  expiresAt : Option Instant
  reason : TurnReason
  remedy : Option String
  deriving DecidableEq, Repr

structure ExternalStatusRow where
  machine : String
  threadId : String
  name : Option String
  dir : Option String
  updatedAt : Option Instant
  turnState : ExternalTurnState
  deriving DecidableEq, Repr

inductive SnapshotStatus where
  | live | stale | unavailable
  deriving DecidableEq, Repr

inductive SnapshotReason where
  | observationPending | connection (reason : ConnectionReason) | unsupportedRuntime | deadline
  | invalidResponse | configChanged | daemonStopped | observationExpired | clockSkew
  deriving DecidableEq, Repr

structure ExternalStatusSnapshot where
  version : String
  machine : String
  generation : String
  sequence : Nat
  status : SnapshotStatus
  reason : Option SnapshotReason
  observedAt : Option Instant
  expiresAt : Option Instant
  truncated : Bool
  omitted : Nat
  sessions : List ExternalStatusRow
  deriving DecidableEq, Repr

def maxRows : Nat := 512

def maxBytes : Nat := 1024 * 1024

def ttlMs : Int := 5000

/-- The status of the snapshot at `now`: a clock that went back, an observation past its time. -/
def freshStatus (snapshot : ExternalStatusSnapshot) (now : Instant) :
    SnapshotStatus × Option SnapshotReason :=
  if snapshot.observedAt.any fun at_ => decide (now < at_) then (.unavailable, some .clockSkew)
  else if snapshot.status = .live ∧
      snapshot.expiresAt.all (fun expires => decide (expires ≤ now)) = true then
    (.stale, some .observationExpired)
  else (snapshot.status, snapshot.reason)

/-- The snapshot's own cause, kept where it is a connection one. -/
def expiredReason (status : SnapshotStatus) (reason : Option SnapshotReason) : TurnReason :=
  if status ≠ .unavailable then .deadline
  else match reason with
  | some (.connection cause) => .connection cause
  | _ => .connection .connectionUnavailable

/-- An observed turn state that the snapshot or its own times no longer carry is unknown. -/
def freshTurnState (status : SnapshotStatus) (reason : Option SnapshotReason) (now : Instant)
    (state : ExternalTurnState) : ExternalTurnState :=
  if state.evidence = .observed ∧ (status ≠ .live ∨
      state.expiresAt.all (fun expires => decide (expires ≤ now)) = true ∨
      state.observedAt.any (fun at_ => decide (now < at_)) = true) then
    { state with
      state := .unknown
      turnId := none
      startedAt := none
      evidence := if status = .unavailable then .unavailable else .stale
      reason := expiredReason status reason
      remedy := remedyFor (expiredReason status reason) }
  else state

/-- Transport health does not prove that a thread is loaded by this particular runtime. -/
def currentExternalStatus (snapshot : ExternalStatusSnapshot) (now : Instant) :
    ExternalStatusSnapshot :=
  let fresh := freshStatus snapshot now
  let rows := snapshot.sessions.map fun row =>
    { row with turnState := freshTurnState fresh.1 fresh.2 now row.turnState }
  { snapshot with status := fresh.1, reason := fresh.2, sessions := rows }

/-- Two snapshots under one generation and sequence. -/
def sameNumbers (a b : ExternalStatusSnapshot) : Bool :=
  a.generation == b.generation && a.sequence == b.sequence

section
variable {a b c snapshot : ExternalStatusSnapshot} {now : Instant}

@[simp] theorem current_generation :
    (currentExternalStatus snapshot now).generation = snapshot.generation := rfl

@[simp] theorem current_sequence :
    (currentExternalStatus snapshot now).sequence = snapshot.sequence := rfl

theorem sameNumbers_iff :
    sameNumbers a b = true ↔ a.generation = b.generation ∧ a.sequence = b.sequence := by
  simp [sameNumbers]

theorem sameNumbers_symm (h : sameNumbers a b = true) : sameNumbers b a = true := by
  rw [sameNumbers_iff] at h ⊢
  exact ⟨h.1.symm, h.2.symm⟩

theorem sameNumbers_trans (hab : sameNumbers a b = true) (hbc : sameNumbers b c = true) :
    sameNumbers a c = true := by
  rw [sameNumbers_iff] at hab hbc ⊢
  exact ⟨hab.1.trans hbc.1, hab.2.trans hbc.2⟩

theorem sameNumbers_current : sameNumbers (currentExternalStatus snapshot now) snapshot = true := by
  simp [sameNumbers]

end

end Ccmux.External
