/- Module: Ccmux/Usage/Schema
   source: src/usage/schema.ts, src/usage/empty.ts
   digest: A usage fact, the running aggregate of many, and the part of a query its cache is kept for. -/

import Mathlib
import Ccmux.Chat.Identity
import Ccmux.Lib.Tally

namespace Ccmux.Usage.Schema

open Ccmux.Chat.Identity (AgentKind)
open Ccmux.Lib.Tally (Row)

inductive UsageField where
  | inputTokens | outputTokens | cacheReadTokens | cacheCreationTokens | reasoningTokens
  | totalTokens
  deriving DecidableEq, Repr

/-- `USAGE_FIELDS`. -/
def usageFields : List UsageField :=
  [.inputTokens, .outputTokens, .cacheReadTokens, .cacheCreationTokens, .reasoningTokens,
    .totalTokens]

theorem mem_usageFields (field : UsageField) : field ∈ usageFields := by
  cases field <;> simp [usageFields]

instance : Fintype UsageField := ⟨usageFields.toFinset, fun field =>
  List.mem_toFinset.mpr (mem_usageFields field)⟩

abbrev UsageMetrics := UsageField → Option Nat

def emptyUsage : UsageMetrics := fun _ => none

inductive UsageScope where
  | message | turn | run | session
  deriving DecidableEq, Repr

inductive UsageMode where
  | replacement | cumulative
  deriving DecidableEq, Repr

inductive CostBasis where
  | list | managed | unknown
  deriving DecidableEq, Repr

structure UsageDetails where
  canonicalModel : Option String
  costBasis : Option CostBasis
  webSearchRequests : Option Nat
  contextWindow : Option Nat
  maxOutputTokens : Option Nat
  deriving DecidableEq, Repr

/-- `value` is the reported number, read exactly. -/
structure UsageCost where
  value : ℚ≥0
  currency : String
  provenance : Option String
  deriving DecidableEq

inductive UsageIdentity where
  | native | record
  deriving DecidableEq, Repr

structure UsageFact where
  id : String
  runtime : AgentKind
  model : Option String
  provider : Option String
  «at» : Option String
  observedAt : String
  scope : UsageScope
  mode : UsageMode
  epoch : String
  inputIncludesCache : Option Bool
  outputIncludesReasoning : Option Bool
  metrics : UsageMetrics
  provenance : Option (UsageField → Option String)
  cost : Option UsageCost
  identity : UsageIdentity
  details : Option UsageDetails
  counterAmbiguous : Option Bool
  deriving DecidableEq

/-- What a row of reported costs is kept for. -/
structure CostKey where
  currency : String
  provenance : Option String
  deriving DecidableEq, Repr

/-- A row of `costs`: `total` is `reported` and `count` is `observations`. -/
abbrev CostRow := Row CostKey ℚ

/-- The coverage fields are left out: they are computed for a reply and never stored otherwise. -/
structure UsageAggregate where
  values : UsageField → Option Int
  observations : Int
  measured : UsageField → Int
  costs : List CostRow
  deriving DecidableEq

def emptyAggregate : UsageAggregate := ⟨fun _ => none, 0, fun _ => 0, []⟩

/-- The part of a query its cache key is hashed from. -/
structure UsageQuery where
  since : Option String
  «until» : Option String
  timezone : String
  deriving DecidableEq, Repr

structure UsageShape where
  day : Option String
  model : Option String
  provider : Option String
  inputIncludesCache : Option Bool
  outputIncludesReasoning : Option Bool
  provenance : Option (UsageField → Option String)
  details : Option UsageDetails
  deriving DecidableEq

end Ccmux.Usage.Schema
