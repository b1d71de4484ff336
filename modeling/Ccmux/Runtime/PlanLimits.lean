/- Module: Ccmux/Runtime/PlanLimits
   source: src/runtime/planLimits.ts
   digest: How full the windows of a plan are, and the merge of one window that a server pushed. -/

import Mathlib

namespace Ccmux.Quota

/-- How many windows a measurement may carry. -/
def maxWindows : Nat := 32

/-- `PLAN_LIMITS_MAX_AGE_MS` -/
def planLimitsMaxAgeMs : Int := 5 * 60000

/-- `percent` in tenths; instants are milliseconds. -/
structure PlanWindow where
  key : String
  label : Option String
  percent : Nat
  windowMinutes : Option Nat
  resetsAt : Option Int
  scope : Option String
  deriving DecidableEq, Repr

inductive Answer where
  | known | noPlanLimit | unpublished
  deriving DecidableEq, Repr

inductive Source where
  | native | statusline | probe
  deriving DecidableEq, Repr

/-- A measurement; its schema takes at most 32 windows. -/
@[ext]
structure PlanLimits where
  answer : Answer
  plan : Option String
  windows : List PlanWindow
  observedAt : Int
  source : Source
  error : Option String
  bounded : windows.length ≤ maxWindows
  deriving DecidableEq, Repr

def planLimitsStaleAfterMs : Source → Int
  | .native => planLimitsMaxAgeMs
  | .statusline | .probe => 30 * 60000

def planWindowExpired (window : PlanWindow) (now : Int) : Bool :=
  window.resetsAt.any fun resetsAt => resetsAt ≤ now

/-- What a runtime reports of a window, its numbers as `percent` and `iso` read them. -/
structure RawWindow where
  percent : Option Nat
  minutes : Option Nat
  resetsAt : Option Int
  deriving DecidableEq, Repr

/-- `slice` is `slice(0, n)`. -/
def readWindow (slice : String → Nat → String) (key : String) (raw : RawWindow)
    (label scope : Option String) : Option PlanWindow :=
  raw.percent.map fun filled =>
    { key := slice key 64, label, percent := filled, windowMinutes := raw.minutes,
      resetsAt := raw.resetsAt, scope }

structure RateLimitInfo where
  rateLimitType : Option String
  raw : RawWindow
  deriving DecidableEq, Repr

def pushedWindow (slice : String → Nat → String) (info : RateLimitInfo) : Option PlanWindow :=
  readWindow slice (info.rateLimitType.getD "unknown") info.raw none none

/-- The windows that stay beside the pushed one. -/
def otherWindows (current : Option PlanLimits) (window : PlanWindow) : List PlanWindow :=
  ((current.map (·.windows)).getD []).filter fun known => known.key ≠ window.key

def mergeRateLimitEvent (slice : String → Nat → String) (current : Option PlanLimits)
    (info : RateLimitInfo) (now : Int) : Option PlanLimits :=
  match pushedWindow slice info with
  | none => current
  | some window =>
    some
      { answer := .known
        plan := current.bind (·.plan)
        windows := (otherWindows current window ++ [window]).take maxWindows
        observedAt := now
        source := .native
        error := none
        bounded := List.length_take_le _ _ }

section
variable {slice : String → Nat → String} {current : Option PlanLimits} {info : RateLimitInfo}
variable {now : Int} {window : PlanWindow}

theorem mergeRateLimitEvent_windows (h : pushedWindow slice info = some window) :
    ∃ merged, mergeRateLimitEvent slice current info now = some merged ∧
      merged.windows = (otherWindows current window ++ [window]).take maxWindows := by
  unfold mergeRateLimitEvent
  rw [h]
  exact ⟨_, rfl, rfl⟩

theorem not_mem_otherWindows : window ∉ otherWindows current window := by
  intro h
  have hkey := (List.mem_filter.mp h).2
  simp at hkey

theorem pushed_mem_iff :
    window ∈ (otherWindows current window ++ [window]).take maxWindows ↔
      (otherWindows current window).length < maxWindows := by
  have hnot := @not_mem_otherWindows current window
  rw [List.take_append, List.mem_append]
  constructor
  · rintro (hold | hnew)
    · exact absurd (List.mem_of_mem_take hold) hnot
    · by_contra hfull
      rw [Nat.sub_eq_zero_of_le (Nat.not_lt.mp hfull), List.take_zero] at hnew
      cases hnew
  · intro hroom
    refine .inr ?_
    rw [List.take_of_length_le (by rw [List.length_singleton]; omega)]
    exact List.mem_singleton_self window

end

end Ccmux.Quota
