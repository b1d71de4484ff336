/- Module: Ccmux/Usage/Normalize
   source: src/usage/normalize.ts, src/usage/schema.ts (UsageFactSchema)
   digest: The usage fact of one transcript record, and what the record does to the parse context. -/

import Ccmux.Chat.Format
import Ccmux.Transcript.Normalize
import Ccmux.Usage.Schema

namespace Ccmux.Usage.Normalize

open Ccmux.Chat.Identity (AgentKind)
open Ccmux.Chat.Format (utf16Length)
open Ccmux.Transcript.Normalize
open Ccmux.Usage.Schema

/-- `Number.MAX_SAFE_INTEGER`. -/
def maxSafeCount : ℚ := 9007199254740991

/-- The outer `none` is a throw: a count that is there must be a safe natural number. -/
def token (value : Option Json) : Option (Option Nat) :=
  match value with
  | none => some none
  | some .null => some none
  | some (.num (some q)) =>
    if q.den = 1 ∧ 0 ≤ q ∧ q ≤ maxSafeCount then some (some q.num.toNat) else none
  | some _ => none

def eventTime (b : Builtins) (value : Option Json) : Option String :=
  ((str value).bind nonEmpty).bind b.isoTime

def metricsOf (input output cacheRead cacheCreation reasoning total : Option Nat) : UsageMetrics
  | .inputTokens => input
  | .outputTokens => output
  | .cacheReadTokens => cacheRead
  | .cacheCreationTokens => cacheCreation
  | .reasoningTokens => reasoning
  | .totalTokens => total

def claudeMetrics (value : Option Json) : Option UsageMetrics := do
  let u := rec value
  let input ← token (field u "input_tokens")
  let output ← token (field u "output_tokens")
  let reasoning ← token (field (rec (field u "output_tokens_details")) "thinking_tokens")
  let cacheRead ← token (field u "cache_read_input_tokens")
  let cacheCreation ← token (field u "cache_creation_input_tokens")
  some (metricsOf input output cacheRead cacheCreation reasoning none)

def codexMetrics (value : Option Json) : Option UsageMetrics := do
  let u := rec value
  let input ← token (field u "input_tokens")
  let output ← token (field u "output_tokens")
  let cacheRead ← token (field u "cached_input_tokens")
  let reasoning ← token (field u "reasoning_output_tokens")
  let total ← token (field u "total_tokens")
  some (metricsOf input output cacheRead none reasoning total)

structure UsageParseContext where
  model : Option String
  epoch : String
  deriving DecidableEq, Repr

/-- The runtimes that keep a transcript file. -/
inductive TranscriptRuntime where
  | claude | codex
  deriving DecidableEq, Repr

def TranscriptRuntime.kind : TranscriptRuntime → AgentKind
  | .claude => .claude
  | .codex => .codex

def within (low high : Nat) (text : String) : Bool :=
  decide (low ≤ utf16Length text ∧ utf16Length text ≤ high)

/-- `UsageFactSchema.parse` of a fact built here; `observedAt` is written by `toISOString` and the
fields built as literals pass. -/
def admitFact (b : Builtins) (fact : UsageFact) : Option UsageFact :=
  if within 1 512 fact.id ∧ fact.model.all (within 0 256) ∧ fact.at.all b.isDatetime ∧
    within 1 256 fact.epoch then some fact else none

/-- What a `turn_context` or a `session_meta` record of Codex does to the context. -/
def contextAfter (runtime : TranscriptRuntime) (entry : Json) (context : UsageParseContext) :
    UsageParseContext :=
  let payload := rec (field (some entry) "payload")
  let kind := str (field (some entry) "type")
  match runtime with
  | .claude => context
  | .codex =>
    if kind = some "turn_context" then { context with model := str (field payload "model") }
    else if kind = some "session_meta" then
      match (str (field payload "id")).bind nonEmpty with
      | some id => { context with epoch := id }
      | none => context
    else context

def claudeFact (b : Builtins) (entry : Json) (context : UsageParseContext) (observedAt : String) :
    Option (Option UsageFact) :=
  let message := rec (field (some entry) "message")
  if str (field (some entry) "type") = some "assistant" ∧ message.isSome then do
    let native := str (field message "id")
    let id ← (native.or (str (field (some entry) "uuid"))).bind nonEmpty
    let metrics ← claudeMetrics (field message "usage")
    let details := rec (field (rec (field message "usage")) "output_tokens_details")
    (admitFact b
      { id
        runtime := .claude
        model := str (field message "model")
        provider := none
        «at» := eventTime b (field (some entry) "timestamp")
        observedAt
        scope := .message
        mode := .replacement
        epoch := context.epoch
        inputIncludesCache := some false
        outputIncludesReasoning := if details.isSome then some true else none
        metrics
        provenance := none
        cost := none
        identity := if native.isSome then .native else .record
        details := none
        counterAmbiguous := none }).map some
  else some none

/-- A replay of the same provider event is not another charge. -/
def codexFact (b : Builtins) (entry : Json) (context : UsageParseContext) (observedAt : String) :
    Option (Option UsageFact) :=
  let payload := rec (field (some entry) "payload")
  let info := rec (field payload "info")
  if str (field (some entry) "type") = some "event_msg" ∧
      str (field payload "type") = some "token_count" ∧
      (rec (field info "total_token_usage")).isSome then do
    let time := eventTime b (field (some entry) "timestamp")
    let metrics ← codexMetrics (field info "total_token_usage")
    (admitFact b
      { id := b.usageId context.epoch time metrics
        runtime := .codex
        model := context.model
        provider := none
        «at» := time
        observedAt
        scope := .session
        mode := .cumulative
        epoch := context.epoch
        inputIncludesCache := none
        outputIncludesReasoning := none
        metrics
        provenance := none
        cost := none
        identity := .record
        details := none
        counterAmbiguous := none }).map some
  else some none

/-- The context after the record, and its fact; the outer `none` is a throw, which leaves the
context as it was written before. -/
def parseUsageRecord (b : Builtins) (runtime : TranscriptRuntime) (entry : Json)
    (context : UsageParseContext) (observedAt : String) :
    UsageParseContext × Option (Option UsageFact) :=
  let context := contextAfter runtime entry context
  match runtime with
  | .claude => (context, claudeFact b entry context observedAt)
  | .codex => (context, codexFact b entry context observedAt)

/-- The fact without the time it was observed at. -/
def timeless (fact : UsageFact) : UsageFact := { fact with observedAt := "" }

theorem admitFact_timeless (b : Builtins) (fact : UsageFact) :
    ((admitFact b fact).map some).map (Option.map timeless) =
      (admitFact b (timeless fact)).map some := by
  by_cases hpass : within 1 512 fact.id ∧ fact.model.all (within 0 256) ∧
      fact.at.all b.isDatetime ∧ within 1 256 fact.epoch
  · have hadmitted : admitFact b fact = some fact := if_pos hpass
    have htimeless : admitFact b (timeless fact) = some (timeless fact) := if_pos hpass
    rw [hadmitted, htimeless]
    rfl
  · have hrefused : admitFact b fact = none := if_neg hpass
    have htimeless : admitFact b (timeless fact) = none := if_neg hpass
    rw [hrefused, htimeless]
    rfl

theorem claudeFact_clock (b : Builtins) (entry : Json) (context : UsageParseContext)
    (now later : String) :
    (claudeFact b entry context now).map (Option.map timeless) =
      (claudeFact b entry context later).map (Option.map timeless) := by
  unfold claudeFact
  dsimp only
  split
  · simp only [Option.bind_eq_bind, Option.map_bind]
    congr 1
    funext id
    simp only [Function.comp_apply, Option.map_bind]
    congr 1
    funext metrics
    rw [admitFact_timeless, admitFact_timeless]
    rfl
  · rfl

theorem codexFact_clock (b : Builtins) (entry : Json) (context : UsageParseContext)
    (now later : String) :
    (codexFact b entry context now).map (Option.map timeless) =
      (codexFact b entry context later).map (Option.map timeless) := by
  unfold codexFact
  dsimp only
  split
  · simp only [Option.bind_eq_bind, Option.map_bind]
    congr 1
    funext metrics
    simp only [Function.comp_apply]
    rw [admitFact_timeless, admitFact_timeless]
    rfl
  · rfl

theorem parseUsageRecord_clock (b : Builtins) (runtime : TranscriptRuntime) (entry : Json)
    (context : UsageParseContext) (now later : String) :
    (parseUsageRecord b runtime entry context now).1 =
        (parseUsageRecord b runtime entry context later).1 ∧
      (parseUsageRecord b runtime entry context now).2.map (Option.map timeless) =
        (parseUsageRecord b runtime entry context later).2.map (Option.map timeless) := by
  cases runtime with
  | claude => exact ⟨rfl, claudeFact_clock b entry _ now later⟩
  | codex => exact ⟨rfl, codexFact_clock b entry _ now later⟩

end Ccmux.Usage.Normalize
