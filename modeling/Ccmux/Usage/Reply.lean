/- Module: Ccmux/Usage/Reply
   source: src/usage/accumulation.ts (finishUsage), src/usage/file.ts (unavailableUsage),
     src/usage/service.ts (readSessionUsage)
   digest: The JSON of a bucket and of a session's summary, and the size check on the summary. -/

import Mathlib
import Ccmux.Lib.Base64
import Ccmux.Usage.Schema

namespace Ccmux.Usage.Reply

open Ccmux.Lib.JsonText
open Ccmux.Usage.Schema

def usageMaxBytes : Nat := 256 * 1024

def UsageField.text : UsageField → String
  | .inputTokens => "inputTokens"
  | .outputTokens => "outputTokens"
  | .cacheReadTokens => "cacheReadTokens"
  | .cacheCreationTokens => "cacheCreationTokens"
  | .reasoningTokens => "reasoningTokens"
  | .totalTokens => "totalTokens"

/-- `part` is the source's word for a total that misses observations. -/
inductive Coverage where
  | full | part | unknown
  deriving DecidableEq, Repr

def Coverage.text : Coverage → String
  | .full => "full"
  | .part => "partial"
  | .unknown => "unknown"

/-- An aggregate with its coverage fields. -/
structure Covered where
  value : UsageAggregate
  fieldCoverage : UsageField → Coverage
  coverage : Coverage

/-- As `emptyAggregate` has them, and as they are stored. -/
def uncovered (value : UsageAggregate) : Covered := ⟨value, fun _ => .unknown, .unknown⟩

def fieldCoverage (value : UsageAggregate) (incomplete : Bool) (field : UsageField) : Coverage :=
  if value.measured field = 0 then .unknown
  else if incomplete ∨ value.measured field ≠ value.observations then .part
  else .full

def coverage (value : UsageAggregate) (incomplete : Bool) : Coverage :=
  if usageFields.any fun field => fieldCoverage value incomplete field == .part then .part
  else if usageFields.all fun field => decide (value.measured field ≤ 0) then .unknown
  else if incomplete then .part
  else .full

def finishUsage (value : UsageAggregate) (incomplete : Bool) : Covered :=
  ⟨value, fieldCoverage value incomplete, coverage value incomplete⟩

/-- The texts that number formatting and a bucket's dimensions decide. -/
structure Texts where
  shape : UsageShape → List String
  costs : List CostRow → String

def countText (value : Option Int) : String := value.elim "null" toString

section
variable (texts : Texts)

/-- The fields of an aggregate beside its coverage. -/
def Texts.valueFields (value : UsageAggregate) : List String :=
  [field "values" (object (usageFields.map fun name =>
      field (UsageField.text name) (countText (value.values name)))),
    field "observations" (toString value.observations),
    field "measured" (object (usageFields.map fun name =>
      field (UsageField.text name) (toString (value.measured name)))),
    field "costs" (texts.costs value.costs)]

def coverageFields (covered : Covered) : List String :=
  [field "fieldCoverage" (object (usageFields.map fun name =>
      field (UsageField.text name) (quote (covered.fieldCoverage name).text))),
    field "coverage" (quote covered.coverage.text)]

def Texts.aggregate (covered : Covered) : String :=
  object (texts.valueFields covered.value ++ coverageFields covered)

structure Bucket where
  shape : UsageShape
  totals : Covered

/-- The bucket's JSON; the order of its fields has no part in its length. -/
def Texts.bucket (bucket : Bucket) : String :=
  object (texts.shape bucket.shape ++ texts.valueFields bucket.totals.value ++
    coverageFields bucket.totals)

/-- The fields of a session's summary and the texts of their values. -/
structure Summary where
  fields : List (String × String)
  deriving DecidableEq

def Summary.json (summary : Summary) : String :=
  object (summary.fields.map fun (name, value) => field name value)

def Summary.get (summary : Summary) (name : String) : Option String :=
  (summary.fields.find? fun entry => entry.1 == name).map Prod.snd

/-- Assigning a field: in its place, or after the others. -/
def Summary.set (summary : Summary) (name value : String) : Summary :=
  if summary.fields.any fun entry => entry.1 == name then
    ⟨summary.fields.map fun entry => if entry.1 == name then (name, value) else entry⟩
  else ⟨summary.fields ++ [(name, value)]⟩

def Texts.unavailableUsage (address runtime source reason : String) : Summary :=
  ⟨[("address", quote address), ("runtime", quote runtime),
    ("identity", object [field "sessionId" "null", field "nativeSessionId" "null"]),
    ("source", quote source), ("reason", quote reason), ("additivity", quote "session-only"),
    ("state", quote "stale"), ("revision", quote "0"), ("observedAt", "null"),
    ("sourceEventRange", object [field "first" "null", field "last" "null"]),
    ("indexedBytes", "0"), ("sourceBytes", "null"), ("malformedRecords", "0"),
    ("history", quote "native-history"),
    ("self", texts.aggregate (uncovered emptyAggregate)),
    ("unattributed", texts.aggregate (uncovered emptyAggregate)),
    ("delegated", object [field "coverage" (quote "unknown"), field "addresses" (array [])]),
    ("reportedPipeline", "null"), ("buckets", array []), ("timezone", quote "UTC"),
    ("nextCursor", "null"), ("reset", "false")]⟩

/-- What a reading that threw or was too large is answered with. -/
def Texts.failedUsage (address timezone : String) : Summary :=
  ((texts.unavailableUsage address "unknown" "unreadable" "accounting-unavailable").set
    "state" (quote "failed")).set "timezone" (quote timezone)

def retryAfterMs (summary : Summary) : String :=
  if summary.get "state" = some (quote "building") then "1000" else "null"

/-- `reading` is the summary with its timezone and identity, `none` where reading it threw. -/
def Texts.readSessionUsage (reading : Option Summary) (address timezone : String) : Summary :=
  match reading with
  | none => texts.failedUsage address timezone
  | some result =>
    if usageMaxBytes - 4096 < byteLength result.json then texts.failedUsage address timezone
    else result.set "retryAfterMs" (retryAfterMs result)

theorem Coverage.quote_le (word : Coverage) :
    byteLength (quote word.text) ≤ byteLength (quote Coverage.unknown.text) := by
  have hfull : escapedBytes Coverage.full.text = 4 := by
    unfold escapedBytes byteLength escape
    decide
  have hpart : escapedBytes Coverage.part.text = 7 := by
    unfold escapedBytes byteLength escape
    decide
  have hunknown : escapedBytes Coverage.unknown.text = 7 := by
    unfold escapedBytes byteLength escape
    decide
  cases word with
  | full => rw [byteLength_quote, byteLength_quote, hfull, hunknown]; omega
  | part => rw [byteLength_quote, byteLength_quote, hpart, hunknown]
  | unknown => exact Nat.le_refl _

theorem coverageFields_le (covered : Covered) :
    ((coverageFields covered).map byteLength).sum ≤
      ((coverageFields (uncovered covered.value)).map byteLength).sum := by
  have hwords : ((usageFields.map fun name => field (UsageField.text name)
        (quote (covered.fieldCoverage name).text)).map byteLength).sum ≤
      ((usageFields.map fun name => field (UsageField.text name)
        (quote Coverage.unknown.text)).map byteLength).sum := by
    rw [List.map_map, List.map_map]
    apply List.sum_le_sum
    intro name _
    have hword := Coverage.quote_le (covered.fieldCoverage name)
    simp only [Function.comp_apply, byteLength_field]
    omega
  have hword := Coverage.quote_le covered.coverage
  simp only [coverageFields, uncovered, List.map_cons, List.map_nil, List.sum_cons, List.sum_nil,
    byteLength_field, byteLength_object, List.length_map]
  omega

theorem Texts.aggregate_finish_le (value : UsageAggregate) (incomplete : Bool) :
    byteLength (texts.aggregate (finishUsage value incomplete)) ≤
      byteLength (texts.aggregate (uncovered value)) := by
  have hfields := coverageFields_le (finishUsage value incomplete)
  have hvalue : (finishUsage value incomplete).value = value := rfl
  have hstored : (uncovered value).value = value := rfl
  have hlength : (coverageFields (finishUsage value incomplete)).length =
      (coverageFields (uncovered value)).length := rfl
  rw [hvalue] at hfields
  simp only [Texts.aggregate, byteLength_object, List.map_append, List.sum_append,
    List.length_append, hvalue, hstored, hlength]
  omega

theorem Texts.bucket_finish_le (shape : UsageShape) (value : UsageAggregate) (incomplete : Bool) :
    byteLength (texts.bucket ⟨shape, finishUsage value incomplete⟩) ≤
      byteLength (texts.bucket ⟨shape, uncovered value⟩) := by
  have hfields := coverageFields_le (finishUsage value incomplete)
  have hvalue : (finishUsage value incomplete).value = value := rfl
  rw [hvalue] at hfields
  have hlength : (coverageFields (finishUsage value incomplete)).length =
      (coverageFields (uncovered value)).length := rfl
  have hstored : (uncovered value).value = value := rfl
  simp only [Texts.bucket, byteLength_object, List.map_append, List.sum_append, List.length_append,
    hvalue, hstored, hlength]
  omega

theorem Summary.json_bytes (summary : Summary) :
    byteLength summary.json =
      (summary.fields.map fun entry => byteLength (field entry.1 entry.2)).sum +
        (summary.fields.length - 1) + 2 := by
  rw [Summary.json, byteLength_object, List.map_map, List.length_map]
  rfl

theorem Summary.json_bytes_replace (name value other : String) (rest : List (String × String)) :
    byteLength (Summary.mk ((name, value) :: rest)).json + byteLength other =
      byteLength (Summary.mk ((name, other) :: rest)).json + byteLength value := by
  simp only [Summary.json_bytes, List.map_cons, List.sum_cons, List.length_cons, byteLength_field]
  omega

theorem Summary.set_bytes {summary : Summary} {name : String}
    (habsent : (summary.fields.any fun entry => entry.1 == name) = false)
    (hfields : summary.fields ≠ []) (value : String) :
    byteLength (summary.set name value).json =
      byteLength summary.json + byteLength (field name value) + 1 := by
  have hlength := List.length_pos_of_ne_nil hfields
  simp only [Summary.set, habsent, Bool.false_eq_true, if_false, Summary.json_bytes,
    List.map_append, List.sum_append, List.length_append, List.map_cons, List.map_nil,
    List.sum_cons, List.sum_nil, List.length_cons, List.length_nil]
  omega

/-- The row that the list gives for a reading is below the size that no page takes. -/
def Texts.RowFits (reading : Option Summary) (address timezone : String) : Prop :=
  match reading with
  | none => byteLength (texts.failedUsage address timezone).json < usageMaxBytes - 4096
  | some result =>
    if usageMaxBytes - 4096 < byteLength result.json then
      byteLength (texts.failedUsage address timezone).json < usageMaxBytes - 4096
    else
      byteLength (result.set "retryAfterMs" (retryAfterMs result)).json < usageMaxBytes - 4096

theorem Texts.rowFits_iff (reading : Option Summary) (address timezone : String) :
    texts.RowFits reading address timezone ↔
      byteLength (texts.readSessionUsage reading address timezone).json < usageMaxBytes - 4096 := by
  unfold Texts.RowFits Texts.readSessionUsage
  cases reading with
  | none => rfl
  | some result =>
    dsimp only
    split
    · rfl
    · rfl

theorem retryAfterMs_bytes (summary : Summary) : byteLength (retryAfterMs summary) = 4 := by
  unfold retryAfterMs byteLength
  split
  · decide
  · decide

theorem Texts.rowFits_measured {result : Summary} (address timezone : String)
    (hmeasured : byteLength result.json ≤ usageMaxBytes - 4096)
    (habsent : (result.fields.any fun entry => entry.1 == "retryAfterMs") = false)
    (hfields : result.fields ≠ []) :
    texts.RowFits (some result) address timezone ↔
      byteLength result.json + 20 < usageMaxBytes - 4096 := by
  have hname : escapedBytes "retryAfterMs" = 12 := by
    unfold escapedBytes byteLength escape
    decide
  have hset := Summary.set_bytes habsent hfields (retryAfterMs result)
  rw [byteLength_field, hname, retryAfterMs_bytes] at hset
  unfold Texts.RowFits
  dsimp only
  rw [if_neg (by omega), hset]

end

end Ccmux.Usage.Reply
