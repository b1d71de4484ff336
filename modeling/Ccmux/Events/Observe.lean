/- Module: Ccmux/Events/Observe
   source: src/events/observe.ts, src/chat/turnState.ts, src/session/status.ts,
     src/commands/hookStatus.ts
   digest: What the supervisor sees of a session, what the turn hook says, and what both announce. -/

import Mathlib

namespace Ccmux.Events.Observe

abbrev Instant := Int

inductive PaneState where
  | working | idle | indeterminate
  deriving DecidableEq, Repr

structure PaneScan where
  ready : Bool
  state : PaneState
  atPrompt : Option String
  deriving DecidableEq, Repr

inductive LifecycleState where
  | working | idle
  deriving DecidableEq, Repr

/-- A Claude hook, or the mark of a turn that the supervisor closed. -/
inductive LifecycleEvent where
  | userPromptSubmit | stop | sessionStart | turnClosed
  deriving DecidableEq, Repr

structure LifecycleStatus where
  state : LifecycleState
  ts : Instant
  event : LifecycleEvent
  deriving DecidableEq, Repr

/-- What the feed is told; a boundary also names its turn by the start instant, where it is known.
`observerRestarted` is no event of the feed: it marks where the observer lost its memory. -/
inductive Announcement where
  | turnStart (turn : Instant)
  | turnEnd (turn : Option Instant) (durationMs : Option Int) (interrupted : Bool)
  | waiting (detail : String)
  | resumed
  | sessionStart
  | sessionStop
  | sessionBlocked (detail : String)
  | observerRestarted
  deriving DecidableEq, Repr

/-! The turn hook. -/

inductive Hook where
  | userPromptSubmit | stop | sessionStart
  deriving DecidableEq, Repr

/-- `parseLifecycle` of a mapped hook event. -/
def parseLifecycle (hook : Hook) (now : Instant) : LifecycleStatus :=
  match hook with
  | .userPromptSubmit => ⟨.working, now, .userPromptSubmit⟩
  | .stop => ⟨.idle, now, .stop⟩
  | .sessionStart => ⟨.idle, now, .sessionStart⟩

def isWorking (status : Option LifecycleStatus) : Bool := status.any fun s => s.state == .working

/-- The start instant of the turn the lifecycle file says is running. -/
def claimedTurn (status : Option LifecycleStatus) : Option Instant :=
  (status.filter fun s => s.state == .working).map fun s => s.ts

def eventForLifecycle (status : LifecycleStatus) (previous : Option LifecycleStatus) :
    Option Announcement :=
  match status.event with
  | .userPromptSubmit => if isWorking previous then none else some (.turnStart status.ts)
  | .sessionStart => some .sessionStart
  | .turnClosed => none
  | .stop =>
    -- The supervisor already closed this turn and said so.
    if previous.any fun p => p.event == .turnClosed then none
    else match claimedTurn previous with
    | none => some (.turnEnd none none false)
    | some start =>
      let durationMs := status.ts - start
      some (.turnEnd (some start) (if 0 ≤ durationMs then some durationMs else none) false)

/-- A prompt inside a running turn does not move the turn's start. -/
def lifecycleToWrite (status : LifecycleStatus) (previous : Option LifecycleStatus) :
    LifecycleStatus :=
  match claimedTurn previous with
  | some start => if status.state = .working then { status with ts := start } else status
  | none => status

def closedTurnRecord (previous : LifecycleStatus) (endedMs : Instant) : LifecycleStatus :=
  { previous with state := .idle, ts := endedMs, event := .turnClosed }

/-- `closeTurn`, re-reading the record before it writes. -/
def closeTurn (current : Option LifecycleStatus) (endedMs : Instant) : Option LifecycleStatus :=
  current.map fun status =>
    if status.state = .working then closedTurnRecord status endedMs else status

/-! Whether a session is between turns. -/

def settleMs : Int := 6000

def interruptedMs : Int := 60000

inductive TurnWhy where
  | working | notDrawn | atMenu | settling | quietUnproven | turnEnded | idleAfterInterrupt
  | neverSpoke
  deriving DecidableEq, Repr

structure TurnState where
  settled : Bool
  why : TurnWhy
  deriving DecidableEq, Repr

structure TurnFacts where
  paneWorking : Bool
  paneReady : Bool
  atMenu : Bool
  endedOnAssistantText : Bool
  msSinceActivity : Option Int

def turnState (f : TurnFacts) : TurnState :=
  if f.paneWorking then ⟨false, .working⟩
  else if !f.paneReady then ⟨false, .notDrawn⟩
  else if f.atMenu then ⟨false, .atMenu⟩
  else match f.msSinceActivity with
  | none => ⟨true, .neverSpoke⟩
  | some quiet =>
    if f.endedOnAssistantText then
      if settleMs ≤ quiet then ⟨true, .turnEnded⟩ else ⟨false, .settling⟩
    else if interruptedMs ≤ quiet then ⟨true, .idleAfterInterrupt⟩ else ⟨false, .quietUnproven⟩

/-- The transcript's last assistant text belongs to this lifecycle turn. -/
def assistantEndedCurrentTurn (lastIsAssistantText : Bool) (transcriptMs turnStartedMs : Option Instant) :
    Bool :=
  lastIsAssistantText &&
    turnStartedMs.all fun start => transcriptMs.any fun moved => decide (start ≤ moved)

/-- The most recent evidence that this session is alive, from the transcript or the pane. -/
def lastSignOfLife (transcriptMs paneWorkingMs turnStartedMs : Option Instant) : Option Instant :=
  match turnStartedMs with
  | none =>
    match transcriptMs, paneWorkingMs with
    | none, pane => pane
    | transcript, none => transcript
    | some transcript, some pane => some (max transcript pane)
  | some start =>
    let since (ms : Option Instant) : Instant := (ms.filter fun t => start ≤ t).getD start
    some (max start (max (since transcriptMs) (since paneWorkingMs)))

/-! The observer. -/

structure Observed where
  running : Bool
  waitingAt : Option String
  blocked : Option String
  turnStartedMs : Option Instant
  turnOverMs : Option Instant
  turnInterrupted : Bool
  paneWorkingMs : Option Instant
  turnClosedFor : Option Instant
  deriving DecidableEq, Repr

def unseen : Observed := ⟨false, none, none, none, none, false, none, none⟩

/-- What a native runtime publishes of itself; `unavailable` is why it is not live. -/
structure NativeView where
  atPrompt : Option String
  unavailable : Option String
  turnStartedMs : Option Instant
  deriving DecidableEq, Repr

/-- What one pass finds of the session: a pane that could not be captured is none. `closes` says
whether its write of the lifecycle file would succeed. -/
structure Glimpse where
  running : Bool
  native : Option NativeView := none
  pane : Option PaneScan := none
  inspectsPane : Bool := true
  block : Option String := none
  lastIsAssistantText : Bool := false
  activityMs : Option Instant := none
  paneActivityOnDisk : Option Instant := none
  nowMs : Instant
  closes : Bool := true
  deriving DecidableEq, Repr

/-- The turn state that the pane and the transcript prove, none without a pane. -/
def provenState (g : Glimpse) (claimed paneWorkingMs : Option Instant) : Option TurnState :=
  g.pane.map fun scan =>
    let aliveMs := lastSignOfLife g.activityMs paneWorkingMs claimed
    turnState
      { paneWorking := scan.state == .working
        paneReady := !g.inspectsPane || scan.ready
        atMenu := scan.atPrompt.isSome
        endedOnAssistantText := assistantEndedCurrentTurn g.lastIsAssistantText g.activityMs claimed
        msSinceActivity := aliveMs.map fun alive => g.nowMs - alive }

def observe (lifecycle : Option LifecycleStatus) (g : Glimpse) (lastPaneWorkingMs : Option Instant) :
    Observed :=
  if !g.running then unseen
  else match g.native with
  | some view =>
    { unseen with
      running := true
      waitingAt := view.atPrompt
      blocked := view.unavailable.map fun reason => "native status unavailable: " ++ reason
      turnStartedMs := view.turnStartedMs }
  | none =>
    let paneWorking := g.pane.any fun scan => scan.state == .working
    let paneWorkingMs := if paneWorking then some g.nowMs else lastPaneWorkingMs
    let claimed := claimedTurn lifecycle
    let state := provenState g claimed paneWorkingMs
    let overTurn := claimed.filter fun _ => state.any fun s => s.settled
    { running := true
      turnClosedFor := none
      paneWorkingMs
      waitingAt := g.pane.bind fun scan => scan.atPrompt
      blocked := g.block
      turnStartedMs := claimed
      turnOverMs := overTurn.map fun start => min g.nowMs (max start (g.activityMs.getD g.nowMs))
      turnInterrupted := overTurn.isSome && state.any fun s => s.why == .idleAfterInterrupt }

/-- The turn that this observation ends: its start and the instant it stopped. -/
def endedTurn (prev next : Observed) : Option (Instant × Instant) :=
  match next.turnOverMs, next.turnStartedMs with
  | some overAt, some start =>
    if prev.running ∧ prev.turnClosedFor ≠ some start then some (start, overAt) else none
  | _, _ => none

@[grind =]
def blockedNews (prev next : Observed) : List Announcement :=
  match next.blocked with
  | some detail => if prev.blocked ≠ next.blocked then [.sessionBlocked detail] else []
  | none => []

@[grind =]
def menuNews (prev next : Observed) : List Announcement :=
  match next.waitingAt with
  | some detail => if prev.waitingAt ≠ next.waitingAt then [.waiting detail] else []
  | none => if prev.waitingAt.isSome then [.resumed] else []

@[grind =]
def endNews (prev next : Observed) : List Announcement :=
  match endedTurn prev next with
  | some (start, overAt) =>
    [.turnEnd (some start) (some (max 0 (overAt - start))) next.turnInterrupted]
  | none => []

/-- The transitions between two observations; a stopped session has no menu and no turn. -/
def transitions (prev next : Observed) : List Announcement :=
  if prev.running && !next.running then [.sessionStop]
  else if !next.running then []
  else blockedNews prev next ++ menuNews prev next ++ endNews prev next

def shouldCloseTurn (prev next : Observed) : Bool :=
  prev.running && next.turnOverMs.isSome && decide (prev.turnClosedFor ≠ next.turnStartedMs)

section
variable {lifecycle : Option LifecycleStatus} {g : Glimpse} {pane : Option Instant}
  {prev next : Observed}

theorem isWorking_eq (status : Option LifecycleStatus) :
    isWorking status = (claimedTurn status).isSome := by
  cases status with
  | none => rfl
  | some status => cases hstate : status.state <;> simp [isWorking, claimedTurn, Option.filter, hstate]

theorem claimedTurn_hook (hook : Hook) (now : Instant) :
    claimedTurn (some (lifecycleToWrite (parseLifecycle hook now) lifecycle)) = match hook with
      | .userPromptSubmit => some ((claimedTurn lifecycle).getD now)
      | _ => none := by
  cases hclaimed : claimedTurn lifecycle with
  | none =>
    have hwritten : lifecycleToWrite (parseLifecycle hook now) lifecycle = parseLifecycle hook now := by
      simp [lifecycleToWrite, hclaimed]
    rw [hwritten]
    cases hook <;> rfl
  | some start =>
    have hwritten : lifecycleToWrite (parseLifecycle hook now) lifecycle =
        if (parseLifecycle hook now).state = .working then
          { parseLifecycle hook now with ts := start } else parseLifecycle hook now := by
      simp [lifecycleToWrite, hclaimed]
    rw [hwritten]
    cases hook <;> rfl

theorem claimedTurn_closeTurn (endedMs : Instant) :
    claimedTurn (closeTurn lifecycle endedMs) = none := by
  cases lifecycle with
  | none => rfl
  | some status =>
    cases hstate : status.state <;>
      simp [closeTurn, closedTurnRecord, claimedTurn, Option.filter, hstate]

theorem observe_running : (observe lifecycle g pane).running = g.running := by
  unfold observe
  cases hrunning : g.running with
  | false => rfl
  | true => cases g.native <;> rfl

theorem observe_stopped (h : g.running = false) : observe lifecycle g pane = unseen := by
  simp [observe, h]

theorem observe_over {overAt : Instant} (h : (observe lifecycle g pane).turnOverMs = some overAt) :
    (observe lifecycle g pane).turnStartedMs = claimedTurn lifecycle ∧
      (claimedTurn lifecycle).isSome = true := by
  unfold observe at h ⊢
  split at h
  · cases h
  · rename_i hrunning
    rw [if_neg hrunning]
    cases hnative : g.native with
    | some view =>
      rw [hnative] at h
      cases h
    | none =>
      rw [hnative] at h
      refine ⟨rfl, ?_⟩
      obtain ⟨start, hstart, -⟩ := Option.map_eq_some_iff.mp h
      rw [(Option.filter_eq_some_iff.mp hstart).1]
      rfl

theorem shouldCloseTurn_iff (h : ∀ overAt, next.turnOverMs = some overAt → next.turnStartedMs.isSome = true) :
    shouldCloseTurn prev next = true ↔ (endedTurn prev next).isSome = true := by
  unfold shouldCloseTurn endedTurn
  cases hover : next.turnOverMs with
  | none => simp
  | some overAt =>
    obtain ⟨start, hstart⟩ := Option.isSome_iff_exists.mp (h overAt hover)
    simp only [hstart, Option.isSome_some, Bool.and_true, Bool.and_eq_true, decide_eq_true_eq]
    split <;> simp_all

end

end Ccmux.Events.Observe
