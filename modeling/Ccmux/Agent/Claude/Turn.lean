/- Module: Ccmux/Agent/Claude/Turn
   source: src/agent/claude/native/turn.ts, src/agent/claude/native/content.ts,
     src/runtime/interrupt.ts
   digest: The fold that says what a session does, and what one event leaves of its count. -/

import Ccmux.Runtime.Response

namespace Ccmux.Agent.Claude.Turn

open Ccmux.Runtime.Response (RequestKind)

inductive ContentKind where
  | assistant | reasoningSummary | tool | usage | request | terminal
  deriving DecidableEq, Repr

inductive Skip where
  | transport | diagnostic | lifecycle
  deriving DecidableEq, Repr

inductive Classification where
  | kind (kind : ContentKind)
  | skip (skip : Skip)
  | unhandled (type : String)
  deriving DecidableEq, Repr

/-- `SKIP`: the members of the message union that carry no conversation content. -/
def skipTable : List (String × Skip) :=
  [("control_request", .transport), ("control_response", .transport),
    ("control_cancel_request", .transport), ("control_request_progress", .transport),
    ("system", .lifecycle), ("session_state_changed", .lifecycle),
    ("worker_shutting_down", .lifecycle), ("conversation_reset", .lifecycle),
    ("commands_changed", .lifecycle), ("background_tasks_changed", .lifecycle),
    ("auth_status", .diagnostic), ("api_retry", .diagnostic), ("rate_limit_event", .diagnostic),
    ("hook_started", .diagnostic), ("hook_progress", .diagnostic), ("hook_response", .diagnostic),
    ("plugin_install", .diagnostic), ("files_persisted", .diagnostic),
    ("informational", .diagnostic), ("notification", .diagnostic),
    ("prompt_suggestion", .diagnostic), ("memory_recall", .diagnostic),
    ("mirror_error", .diagnostic), ("elicitation_complete", .diagnostic),
    ("thinking_tokens", .diagnostic)]

def classifySdkMessage (type : String) : Classification :=
  match type with
  | "assistant" => .kind .assistant
  | "stream_event" => .kind .assistant
  | "user" => .kind .tool
  | "tool_progress" => .kind .tool
  | "tool_use_summary" => .kind .tool
  | "task_started" => .kind .tool
  | "task_updated" => .kind .tool
  | "task_progress" => .kind .tool
  | "task_notification" => .kind .tool
  | "permission_denied" => .kind .request
  | "local_command_output" => .kind .tool
  | "result" => .kind .terminal
  | "model_refusal_fallback" => .kind .terminal
  | "model_refusal_no_fallback" => .kind .terminal
  | "compact_boundary" => .unhandled "compact_boundary"
  | type =>
    match skipTable.lookup type with
    | some skip => .skip skip
    | none => .unhandled type

/-- What the owner looks at in a message of the stream. -/
structure SdkMessage where
  type : String
  isError : Bool := false
  subtype : Option String := none
  deriving DecidableEq, Repr

def isFailureResult (message : SdkMessage) : Bool :=
  if message.type ≠ "result" then message.type == "model_refusal_no_fallback"
  else message.isError || message.subtype.any fun subtype => subtype != "success"

inductive NativeState where
  | working | idle | waitingApproval | waitingInput
  deriving DecidableEq, Repr

inductive TurnStatus where
  | inProgress | completed | interrupted | failed
  deriving DecidableEq, Repr

structure TurnState where
  status : Option TurnStatus
  state : NativeState
  outstanding : Nat
  unhandled : List String
  deriving DecidableEq, Repr

def initialTurn : TurnState := ⟨none, .idle, 0, []⟩

inductive TurnEvent where
  | message (message : Classification) (kind : Option RequestKind) (failed : Bool)
  | answered
  | interrupted
  | failed
  deriving DecidableEq, Repr

/-- A turn that has not reached a terminal status is still running, whether or not it has one. -/
def isRunning (status : Option TurnStatus) : Bool := status == none || status == some .inProgress

@[grind =]
def advanceTurn (current : TurnState) : TurnEvent → TurnState
  | .failed => { current with status := some .failed, state := .idle, outstanding := 0 }
  | .interrupted => { current with status := some .interrupted, state := .idle, outstanding := 0 }
  | .answered =>
    let outstanding := current.outstanding - 1
    { current with
      outstanding
      state :=
        if outstanding > 0 then current.state
        else if isRunning current.status then .working
        else .idle }
  | .message (.unhandled type) _ _ =>
    { current with
      unhandled :=
        if current.unhandled.contains type then current.unhandled
        else current.unhandled ++ [type] }
  | .message (.skip _) _ _ => current
  | .message (.kind _) (some kind) _ =>
    { current with
      outstanding := current.outstanding + 1
      state := match kind with
        | .approval => .waitingApproval
        | .input => .waitingInput }
  | .message (.kind .terminal) none failed =>
    { current with
      status :=
        if isRunning current.status then some (if failed then .failed else .completed)
        else current.status
      state := if current.outstanding > 0 then current.state else .idle }
  | .message (.kind _) none _ =>
    { current with
      status := if isRunning current.status then some .inProgress else current.status
      state := if current.outstanding > 0 then current.state else .working }

/-- A pickup or a compaction takes the turn: `{ ...turn, status: 'inProgress', state: 'working' }`. -/
def TurnState.begin (current : TurnState) : TurnState :=
  { current with status := some .inProgress, state := .working }

def NativeState.waiting (state : NativeState) : Bool :=
  state == .waitingApproval || state == .waitingInput

/-- The part of a projection that an interrupt is judged by. -/
structure Cancellable where
  generation : String
  state : NativeState
  turn : Option (String × TurnStatus)
  deriving DecidableEq, Repr

def isCancellableTurn (snapshot : Cancellable) (generation turnId : String) : Bool :=
  snapshot.generation == generation &&
    (snapshot.turn.any fun turn => turn.1 == turnId && turn.2 == .inProgress) &&
    (snapshot.state == .working || snapshot.state.waiting)

/-! Which messages move the turn. -/

/-- The message is output of a turn, and not its end. -/
def progress : Classification → Bool
  | .kind .terminal => false
  | .kind _ => true
  | _ => false

/-- The turn counts `n` requests: it waits exactly where there is one, and rests where none is left
of a turn that has ended. -/
structure Counts (turn : TurnState) (n : Nat) : Prop where
  counted : turn.outstanding = n
  waits : turn.state.waiting = true ↔ n ≠ 0
  rests : isRunning turn.status = false → n = 0 → turn.state = .idle

section
variable {turn : TurnState} {n : Nat}

theorem counts_initial : Counts initialTurn 0 :=
  ⟨rfl, by decide, fun _ _ => rfl⟩

theorem Counts.requested (h : Counts turn n) (kind : ContentKind) (asked : RequestKind)
    (failed : Bool) : Counts (advanceTurn turn (.message (.kind kind) (some asked) failed)) (n + 1) := by
  refine ⟨congrArg (· + 1) h.counted, ?_, ?_⟩
  · cases asked <;> simp [advanceTurn, NativeState.waiting]
  · intro _ hnone
    cases hnone

theorem Counts.answered (h : Counts turn (n + 1)) : Counts (advanceTurn turn .answered) n := by
  have hcounted : turn.outstanding - 1 = n := by
    have := h.counted
    omega
  have hwaits : turn.state.waiting = true := h.waits.mpr (Nat.succ_ne_zero n)
  refine ⟨hcounted, ?_, ?_⟩
  · simp only [advanceTurn, hcounted]
    by_cases hn : n = 0
    · cases hrun : isRunning turn.status <;> simp [hn, NativeState.waiting]
    · simp [Nat.pos_of_ne_zero hn, hn, hwaits]
  · intro hended hn
    have hended' : isRunning turn.status = false := hended
    simp [advanceTurn, hcounted, hn, hended']

theorem Counts.messaged_waiting (h : Counts turn n) (hn : n ≠ 0) (message : Classification)
    (failed : Bool) : Counts (advanceTurn turn (.message message none failed)) n := by
  have hpos : turn.outstanding > 0 := by
    rw [h.counted]
    exact Nat.pos_of_ne_zero hn
  have hwaits := h.waits
  cases message with
  | skip skip => exact h
  | unhandled type => exact ⟨h.counted, hwaits, h.rests⟩
  | kind kind =>
    cases kind <;>
      exact ⟨h.counted, by simpa only [advanceTurn, if_pos hpos] using hwaits,
        fun _ hzero => absurd hzero hn⟩

theorem Counts.messaged (h : Counts turn n) {message : Classification} {failed : Bool}
    (hlate : progress message = true → isRunning turn.status = true ∨ n ≠ 0) :
    Counts (advanceTurn turn (.message message none failed)) n := by
  by_cases hn : n = 0
  · subst hn
    have hzero : ¬ turn.outstanding > 0 := by
      rw [h.counted]
      exact Nat.lt_irrefl 0
    have hprogress : progress message = true → isRunning turn.status = true := by
      intro hp
      rcases hlate hp with hrun | hne
      · exact hrun
      · exact absurd rfl hne
    cases message with
    | skip skip => exact h
    | unhandled type => exact ⟨h.counted, h.waits, h.rests⟩
    | kind kind =>
      cases kind with
      | terminal =>
        refine ⟨h.counted, ?_, ?_⟩
        · simp [advanceTurn, hzero, NativeState.waiting]
        · intro _ _
          simp only [advanceTurn, if_neg hzero]
      | _ =>
        have hrun := hprogress rfl
        refine ⟨h.counted, ?_, ?_⟩
        · simp [advanceTurn, hzero, NativeState.waiting]
        · intro hended
          simp only [advanceTurn, hrun, if_true] at hended
          cases hended
  · exact h.messaged_waiting hn message failed

theorem Counts.begin (h : Counts turn 0) : Counts turn.begin 0 :=
  ⟨h.counted, by simp [TurnState.begin, NativeState.waiting], fun hended => by cases hended⟩

/-! The events that forget what is outstanding. -/

theorem counts_interrupted : Counts (advanceTurn turn .interrupted) n ↔ n = 0 := by
  constructor
  · intro h
    exact h.counted.symm
  · rintro rfl
    exact ⟨rfl, by simp [advanceTurn, NativeState.waiting], fun _ _ => rfl⟩

theorem counts_failed : Counts (advanceTurn turn .failed) n ↔ n = 0 := by
  constructor
  · intro h
    exact h.counted.symm
  · rintro rfl
    exact ⟨rfl, by simp [advanceTurn, NativeState.waiting], fun _ _ => rfl⟩

theorem not_counts_begin (hn : n ≠ 0) : ¬ Counts turn.begin n := by
  intro h
  have hwaits := h.waits.mpr hn
  cases hwaits

theorem not_counts_late (h : Counts turn 0) {message : Classification} {failed : Bool}
    (hlate : progress message = true) (hended : isRunning turn.status = false) :
    ¬ Counts (advanceTurn turn (.message message none failed)) 0 := by
  have hzero : ¬ turn.outstanding > 0 := by
    rw [h.counted]
    exact Nat.lt_irrefl 0
  intro hafter
  cases message with
  | skip skip => cases hlate
  | unhandled type => cases hlate
  | kind kind =>
    cases kind with
    | terminal => cases hlate
    | _ =>
      have hrests := hafter.rests (by simp [advanceTurn, hended]) rfl
      simp [advanceTurn, hzero] at hrests

end

end Ccmux.Agent.Claude.Turn
