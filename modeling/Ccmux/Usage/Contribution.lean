/- Module: Ccmux/Usage/Contribution
   source: src/usage/contribution.ts
   digest: What one fact adds to the totals: itself, or the step of its counter. -/

import Ccmux.Usage.Schema
import Mathlib

namespace Ccmux.Usage.Contribution

open Ccmux.Usage.Schema

/-- The step of one counter; a counter that went down or was not there before is no step. -/
def counterStep (current before : Option Nat) : Option Nat × Bool :=
  match current, before with
  | none, _ => (none, false)
  | some current, none => (some current, true)
  | some current, some before =>
    if current < before then (none, true) else (some (current - before), false)

def costStep (cost before : Option UsageCost) : Option UsageCost :=
  match cost, before with
  | some cost, some before =>
    if cost.currency = before.currency ∧ before.value ≤ cost.value then
      some { cost with value := cost.value - before.value }
    else none
  | _, _ => none

/-- One normalized contribution; counter resets need provider evidence, never a clamp. -/
def usageContribution (fact : UsageFact) (previous : Option UsageFact) : UsageFact :=
  if fact.mode ≠ .cumulative then fact
  else
    match previous with
    | none => { fact with mode := .replacement, «at» := none }
    | some previous =>
      let step (field : UsageField) := counterStep (fact.metrics field) (previous.metrics field)
      let ambiguous := usageFields.any fun field => (step field).2
      { fact with
        mode := .replacement
        metrics := fun field => (step field).1
        cost := costStep fact.cost previous.cost
        «at» := if ambiguous then none else fact.at
        counterAmbiguous := some ambiguous }

end Ccmux.Usage.Contribution
