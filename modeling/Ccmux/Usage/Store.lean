/- Module: Ccmux/Usage/Store
   source: src/usage/store.ts, src/usage/aggregate.ts (updateUsageCaches, aggregate)
   digest: The fact table with its contributions, and the query caches kept beside it. -/

import Ccmux.Lib.Machine
import Ccmux.Usage.Aggregate
import Ccmux.Usage.Contribution

namespace Ccmux.Usage.Store

open Ccmux.Usage.Schema
open Ccmux.Usage.Contribution
open Ccmux.Usage.Aggregate

/-- A row of `facts` with the row of `contributions` of the same id. -/
structure FactRow where
  key : String
  fact : UsageFact
  contribution : Option UsageFact
  deriving DecidableEq

/-- The tables. Rows stand in the order of `seq`, which counts them from one; caches in the order
they were last written. -/
structure UsageStore where
  rows : List FactRow
  caches : List Cache
  buckets : UsageQuery → Buckets
  revision : Nat

def UsageStore.empty : UsageStore := ⟨[], [], fun _ _ => none, 0⟩

def UsageStore.facts (s : UsageStore) : List UsageFact := s.rows.map FactRow.fact

def factKey (fact : UsageFact) : String := fact.epoch ++ ":" ++ fact.id

/-- A counter of the same epoch, and of the same model where the runtime is Claude. -/
def isNeighbor (fact other : UsageFact) : Bool :=
  decide (other.epoch = fact.epoch ∧ other.mode = .cumulative ∧
    (fact.runtime ≠ .claude ∨ other.model = fact.model))

/-- `neighbor(key, fact, 'previous')` for a fact at the index. -/
@[grind =]
def previousIdx (facts : List UsageFact) (fact : UsageFact) : Nat → Option Nat
  | 0 => none
  | idx + 1 => if facts[idx]?.any (isNeighbor fact) then some idx else previousIdx facts fact idx

/-- `neighbor(key, fact, 'next')` for a fact at the index. -/
def nextIdx (facts : List UsageFact) (fact : UsageFact) (idx : Nat) : Option Nat :=
  (List.range facts.length).find? fun later =>
    decide (idx < later) && facts[later]?.any (isNeighbor fact)

/-- The fact the counter at the index is measured against. -/
@[grind =]
def measuredAgainst (facts : List UsageFact) (idx : Nat) : Option Nat :=
  match facts[idx]? with
  | some fact => if fact.mode = .cumulative then previousIdx facts fact idx else none
  | none => none

/-- The contribution of the fact at the index, against its current predecessor. -/
def contributionOf (facts : List UsageFact) (idx : Nat) (fact : UsageFact) : UsageFact :=
  usageContribution fact ((measuredAgainst facts idx).bind fun previous => facts[previous]?)

/-- `write` of a cache: its row is replaced by a new last one. -/
def UsageStore.write (s : UsageStore) (cache : Cache) (buckets : Buckets) : UsageStore :=
  { s with
    caches := s.caches.filter (fun other => decide (other.query ≠ cache.query)) ++ [cache]
    buckets := fun query => if query = cache.query then buckets else s.buckets query }

section
variable (dayOf : String → String → String)

/-- `if (old) apply(store, key, cache, old, -1)`. -/
def takeBack (cache : Cache) (buckets : Buckets) : Option UsageFact → Option (Cache × Buckets)
  | none => some (cache, buckets)
  | some old => apply dayOf cache buckets old (-1)

/-- What a correction does to one cache: the old contribution leaves, the new one enters. -/
def updateCache (s : UsageStore) (old : Option UsageFact) (next : UsageFact) (sequence : Nat)
    (cache : Cache) : Option UsageStore :=
  if !cache.complete && decide (cache.through < sequence) then some s
  else do
    let without ← takeBack dayOf cache (s.buckets cache.query) old
    let updated ← apply dayOf without.1 without.2 next 1
    some (s.write updated.1 updated.2)

/-- Totals and only the affected buckets change atomically with each source correction. -/
def updateUsageCaches (s : UsageStore) (old : Option UsageFact) (next : UsageFact)
    (sequence : Nat) : Option UsageStore :=
  s.caches.foldlM (fun held cache => updateCache dayOf held old next sequence cache) s

def materialize (s : UsageStore) (idx : Nat) : Option UsageStore :=
  match s.rows[idx]? with
  | none => none
  | some row =>
    let next := contributionOf s.facts idx row.fact
    (updateUsageCaches dayOf s row.contribution next (idx + 1)).map fun updated =>
      { updated with rows := updated.rows.set idx { row with contribution := some next } }

/-- The fact at the index is written; it and the counter measured against it are materialized. -/
def record (s : UsageStore) (fact : UsageFact) (idx : Nat) : Option UsageStore := do
  let written ← materialize dayOf { s with revision := s.revision + 1 } idx
  if fact.mode = .cumulative then
    match nextIdx written.facts fact idx with
    | some later => materialize dayOf written later
    | none => some written
  else some written

/-- The rows with the fact in its place, and the place; a fact the table already holds is not
written again. -/
def upsert (rows : List FactRow) (fact : UsageFact) : Option (List FactRow × Nat) :=
  match rows.findIdx? fun row => row.key == factKey fact with
  | some idx =>
    match rows[idx]? with
    | some row =>
      if { row.fact with observedAt := fact.observedAt } = fact then none
      else some (rows.set idx { row with fact }, idx)
    | none => none
  | none => some (rows ++ [⟨factKey fact, fact, none⟩], rows.length)

def putFact (s : UsageStore) (fact : UsageFact) : Option UsageStore :=
  match upsert s.rows fact with
  | none => some s
  | some (rows, idx) => record dayOf { s with rows } fact idx

/-- How many contributions one call builds. -/
def pageSize : Nat := 500

def maxCaches : Nat := 32

/-- The contributions after a sequence number, with their own. -/
def contributionPage (rows : List FactRow) (after limit : Nat) : List (Nat × UsageFact) :=
  (((rows.drop after).zipIdx (after + 1)).filterMap fun (row, sequence) =>
    row.contribution.map fun fact => (sequence, fact)).take limit

/-- One contribution of a page on a cache being built. -/
def buildOne (held : Cache × Buckets) (item : Nat × UsageFact) : Option (Cache × Buckets) :=
  (apply dayOf held.1 held.2 item.2 1).map fun applied =>
    ({ applied.1 with through := item.1 }, applied.2)

/-- The next page of a cache that is not complete. -/
def build (s : UsageStore) (cache : Cache) : Option UsageStore :=
  if cache.complete then some s
  else
    let page := contributionPage s.rows cache.through (pageSize + 1)
    ((page.take pageSize).foldlM (buildOne dayOf) (cache, s.buckets cache.query)).map fun built =>
      s.write { built.1 with complete := decide (page.length ≤ pageSize) } built.2

/-- The oldest complete cache makes room for a new one. -/
def makeRoom (s : UsageStore) : Option UsageStore :=
  if maxCaches ≤ s.caches.length then
    (s.caches.find? fun cache => cache.complete).map fun victim =>
      { s with caches := s.caches.filter fun cache => decide (cache.query ≠ victim.query) }
  else some s

/-- `DELETE FROM buckets WHERE query NOT IN (SELECT key FROM metadata)`. -/
def purgeBuckets (s : UsageStore) : UsageStore :=
  { s with buckets := fun query =>
      if query ∈ s.caches.map Cache.query then s.buckets query else fun _ => none }

/-- A read of a query with the write lock. -/
def aggregate (s : UsageStore) (query : UsageQuery) : Option UsageStore :=
  match s.caches.find? fun cache => decide (cache.query = query) with
  | some cache => build dayOf s cache
  | none => (makeRoom s).bind fun room => build dayOf (purgeBuckets room) (Cache.empty query)

inductive Event where
  | put (fact : UsageFact)
  | aggregate (query : UsageQuery)

/-- Each call is one transaction: a throw leaves the tables as they were. -/
def step (s : UsageStore) : Event → Option UsageStore
  | .put fact => some ((putFact dayOf s fact).getD s)
  | .aggregate query => some ((Store.aggregate dayOf s query).getD s)

end

/-- A correction is followed up: every counter measured against the corrected fact, before or after,
is the one `record` materializes with it. -/
def FollowedUp (s : UsageStore) : Event → Prop
  | .put fact => ∀ rows idx, upsert s.rows fact = some (rows, idx) → ∀ later < rows.length,
      measuredAgainst s.facts later = some idx ∨
        measuredAgainst (rows.map FactRow.fact) later = some idx →
      fact.mode = .cumulative ∧ nextIdx (rows.map FactRow.fact) fact idx = some later
  | .aggregate _ => True

/-- The contributions of all facts, from scratch and in order. -/
def scratch (facts : List UsageFact) : List UsageFact :=
  facts.mapIdx fun idx fact => contributionOf facts idx fact

end Ccmux.Usage.Store
