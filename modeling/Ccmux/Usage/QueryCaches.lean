/- Module: Ccmux/Usage/QueryCaches
   source: src/usage/aggregate.ts (build, aggregate), src/usage/store.ts
   digest: Building caches page by page between corrections ends at the totals from scratch. -/

import Ccmux.Usage.Recompute

namespace Ccmux.Usage.Store

open Ccmux.Lib.Machine
open Ccmux.Usage.Schema
open Ccmux.Usage.Contribution
open Ccmux.Usage.Aggregate

section
variable {dayOf : String → String → String}

variable {fact : UsageFact} {s updated : UsageStore}

variable {rest : List FactRow} {cache : Cache}

theorem contributionPage_cons {row : FactRow} {sequence : Nat} (h : row.contribution = some fact) :
    (((row :: rest).zipIdx sequence).filterMap fun (row, sequence) =>
      row.contribution.map fun fact => (sequence, fact)) =
    (sequence, fact) :: ((rest.zipIdx (sequence + 1)).filterMap fun (row, sequence) =>
      row.contribution.map fun fact => (sequence, fact)) := by
  simp [List.zipIdx_cons, h]

theorem contributionPage_length {rows : List FactRow} {after : Nat}
    (hall : ∀ row ∈ rows, ∃ fact, row.contribution = some fact) (limit : Nat) :
    (contributionPage rows after limit).length = min limit (rows.length - after) := by
  have hpage (rest : List FactRow) (sequence : Nat)
      (hrest : ∀ row ∈ rest, ∃ fact, row.contribution = some fact) :
      ((rest.zipIdx sequence).filterMap fun (row, sequence) =>
        row.contribution.map fun fact => (sequence, fact)).length = rest.length := by
    induction rest generalizing sequence with
    | nil => rfl
    | cons row rest ih =>
      obtain ⟨fact, hfact⟩ := hrest row List.mem_cons_self
      rw [contributionPage_cons hfact, List.length_cons, List.length_cons]
      rw [ih (sequence + 1) fun row hrow => hrest row (List.mem_cons_of_mem _ hrow)]
  unfold contributionPage
  rw [List.length_take, hpage _ _ fun row hrow => hall row (List.mem_of_mem_drop hrow)]
  rw [List.length_drop]

/-- A page on a cache that covers the rows before it: the cache covers the page's rows as well. -/
theorem buildOne_page {pre : List FactRow} {buckets : Buckets} {n : Nat} {built : Cache × Buckets}
    (hcovers : Covers dayOf cache buckets (pre.filterMap FactRow.contribution))
    (hthrough : cache.through = pre.length)
    (hall : ∀ row ∈ rest, ∃ fact, row.contribution = some fact)
    (hfold : (((rest.zipIdx (pre.length + 1)).filterMap fun (row, sequence) =>
      row.contribution.map fun fact => (sequence, fact)).take n).foldlM (buildOne dayOf)
        (cache, buckets) = some built) :
    built.1.query = cache.query ∧ built.1.through = pre.length + min n rest.length ∧
      built.1.complete = cache.complete ∧
      Covers dayOf built.1 built.2 ((pre ++ rest.take n).filterMap FactRow.contribution) := by
  induction rest generalizing pre cache buckets n with
  | nil =>
    simp only [List.zipIdx_nil, List.filterMap_nil, List.take_nil, List.foldlM_nil] at hfold
    obtain rfl := Option.some.inj hfold
    exact ⟨rfl, by simpa using hthrough, rfl, by simpa using hcovers⟩
  | cons row rest ih =>
    cases n with
    | zero =>
      simp only [List.take_zero, List.foldlM_nil] at hfold
      obtain rfl := Option.some.inj hfold
      exact ⟨rfl, by simpa using hthrough, rfl, by simpa using hcovers⟩
    | succ n =>
      obtain ⟨fact, hfact⟩ := hall row List.mem_cons_self
      rw [contributionPage_cons hfact] at hfold
      simp only [List.take_succ_cons, List.foldlM_cons, Option.bind_eq_bind,
        Option.bind_eq_some_iff] at hfold
      obtain ⟨next, hnext, hrest⟩ := hfold
      obtain ⟨applied, happlied, rfl⟩ := Option.map_eq_some_iff.mp hnext
      obtain ⟨hquery, _, hcomplete⟩ := apply_frame happlied
      have hafter : Covers dayOf applied.1 applied.2
          ((pre ++ [row]).filterMap FactRow.contribution : List UsageFact) := by
        have hshift := hcovers.apply (.more _) happlied
        simpa [List.filterMap_append, hfact, ← Multiset.coe_add, add_comm] using hshift
      have hlength : (pre ++ [row]).length = pre.length + 1 := by simp
      have hmore : Covers dayOf { applied.1 with through := pre.length + 1 } applied.2
          ((pre ++ [row]).filterMap FactRow.contribution : List UsageFact) :=
        ⟨hafter.self, hafter.unattributed, hafter.ambiguous, hafter.buckets⟩
      rw [← hlength] at hrest hmore
      obtain ⟨hquery', hthrough', hcomplete', hdone⟩ :=
        ih hmore rfl (fun row hrow => hall row (List.mem_cons_of_mem _ hrow)) hrest
      refine ⟨hquery'.trans hquery, ?_, hcomplete'.trans hcomplete, ?_⟩
      · rw [hthrough', hlength, List.length_cons]
        omega
      · simpa [List.append_assoc] using hdone

/-- Building a cache that covers what it has taken in, kept or new. -/
theorem CachesCover.build (h : CachesCover dayOf s s.rows)
    (hall : ∀ row ∈ s.rows, ∃ fact, row.contribution = some fact)
    (hthrough : cache.through ≤ s.rows.length)
    (hcovers : Covers dayOf cache (s.buckets cache.query) (included cache s.rows))
    (hbuild : build dayOf s cache = some updated) :
    CachesCover dayOf updated updated.rows ∧ updated.rows = s.rows := by
  unfold Store.build at hbuild
  by_cases hcomplete : cache.complete = true
  · rw [if_pos hcomplete] at hbuild
    obtain rfl := Option.some.inj hbuild
    exact ⟨h, rfl⟩
  · rw [if_neg hcomplete] at hbuild
    obtain ⟨built, hfold, rfl⟩ := Option.map_eq_some_iff.mp hbuild
    refine ⟨?_, rfl⟩
    have hpre : (s.rows.take cache.through).length = cache.through := List.length_take_of_le hthrough
    have hrest : ∀ row ∈ s.rows.drop cache.through, ∃ fact, row.contribution = some fact :=
      fun row hrow => hall row (List.mem_of_mem_drop hrow)
    have hstart : Covers dayOf cache (s.buckets cache.query)
        ((s.rows.take cache.through).filterMap FactRow.contribution : List UsageFact) := by
      have hbuilding : cache.complete = false := by simpa using hcomplete
      simpa [included, hbuilding] using hcovers
    have hpage : (contributionPage s.rows cache.through (pageSize + 1)).take pageSize =
        (((s.rows.drop cache.through).zipIdx ((s.rows.take cache.through).length + 1)).filterMap
          fun (row, sequence) => row.contribution.map fun fact => (sequence, fact)).take
            pageSize := by
      unfold contributionPage
      rw [hpre, List.take_take]
      rfl
    rw [hpage] at hfold
    obtain ⟨hquery, hreached, _, hdone⟩ := buildOne_page hstart hpre.symm hrest hfold
    rw [hpre, List.length_drop] at hreached
    have hbound : built.1.through ≤ s.rows.length := by omega
    have hjoined : s.rows.take cache.through ++ (s.rows.drop cache.through).take pageSize =
        s.rows.take built.1.through := by
      rw [← List.take_add, hreached]
      by_cases hfew : s.rows.length - cache.through ≤ pageSize
      · rw [min_eq_right hfew, List.take_of_length_le (by omega),
          List.take_of_length_le (by omega)]
      · rw [min_eq_left (by omega)]
    rw [hjoined] at hdone
    have hlength : (contributionPage s.rows cache.through (pageSize + 1)).length =
        min (pageSize + 1) (s.rows.length - cache.through) := contributionPage_length hall _
    let last := decide ((contributionPage s.rows cache.through (pageSize + 1)).length ≤ pageSize)
    let written : Cache := { built.1 with complete := last }
    show CachesCover dayOf (s.write written built.2) s.rows
    have htaken : included written s.rows =
        (s.rows.take built.1.through).filterMap FactRow.contribution := by
      unfold included
      by_cases hlast : written.complete = true
      · have hshort : min (pageSize + 1) (s.rows.length - cache.through) ≤ pageSize := by
          rw [← hlength]
          exact of_decide_eq_true hlast
        rw [if_pos hlast, List.take_of_length_le (by omega)]
      · rw [if_neg hlast]
    have hwritten : Covers dayOf written built.2 (included written s.rows) := by
      rw [htaken]
      exact ⟨hdone.self, hdone.unattributed, hdone.ambiguous, hdone.buckets⟩
    refine ⟨write_keys written built.2 h.keys, ?_, ?_⟩
    · intro other hmem
      rcases mem_write.mp hmem with ⟨hold, _⟩ | hlast
      · exact h.through other hold
      · rw [hlast]
        exact hbound
    · intro other hmem
      rcases mem_write.mp hmem with ⟨hold, hne⟩ | hlast
      · rw [write_buckets_ne hne]
        exact h.covers other hold
      · rw [hlast, write_buckets_self]
        exact hwritten

theorem CachesCover.makeRoom {room : UsageStore} (h : CachesCover dayOf s s.rows)
    (hroom : makeRoom s = some room) :
    CachesCover dayOf room room.rows ∧ room.rows = s.rows ∧
      ∀ cache ∈ room.caches, cache ∈ s.caches := by
  unfold Store.makeRoom at hroom
  split at hroom
  · obtain ⟨victim, _, rfl⟩ := Option.map_eq_some_iff.mp hroom
    have hsub : ∀ cache ∈ s.caches.filter fun cache => decide (cache.query ≠ victim.query),
        cache ∈ s.caches := fun cache hmem => List.mem_of_mem_filter hmem
    refine ⟨⟨?_, fun cache hmem => h.through cache (hsub cache hmem),
      fun cache hmem => h.covers cache (hsub cache hmem)⟩, rfl, hsub⟩
    exact (List.Sublist.map _ List.filter_sublist).nodup h.keys
  · obtain rfl := Option.some.inj hroom
    exact ⟨h, rfl, fun _ hmem => hmem⟩

theorem CachesCover.purgeBuckets (h : CachesCover dayOf s s.rows) :
    CachesCover dayOf (purgeBuckets s) (purgeBuckets s).rows := by
  refine ⟨h.keys, h.through, ?_⟩
  intro cache hmem
  have hkept : (Store.purgeBuckets s).buckets cache.query = s.buckets cache.query :=
    if_pos (List.mem_map_of_mem hmem)
  rw [hkept]
  exact h.covers cache hmem

theorem Consistent.rows_congr (h : Consistent dayOf s)
    (hcaches : CachesCover dayOf updated updated.rows) (hrows : updated.rows = s.rows) :
    Consistent dayOf updated := by
  refine ⟨hcaches, ?_⟩
  have hfacts : updated.facts = s.facts := by simp only [UsageStore.facts, hrows]
  intro idx row hrow hfresh
  rw [hrows] at hrow
  rw [hfacts]
  exact h.fresh idx row hrow hfresh

/-- A read of a query leaves the tables consistent. -/
theorem Consistent.aggregate {query : UsageQuery} (h : Consistent dayOf s)
    (hread : aggregate dayOf s query = some updated) :
    Consistent dayOf updated := by
  have hall : ∀ row ∈ s.rows, ∃ fact, row.contribution = some fact := by
    intro row hrow
    obtain ⟨idx, hidx⟩ := List.getElem?_of_mem hrow
    exact ⟨_, h.fresh idx row hidx id⟩
  unfold Store.aggregate at hread
  cases hfind : s.caches.find? fun cache => decide (cache.query = query) with
  | some cache =>
    simp only [hfind] at hread
    have hmem : cache ∈ s.caches := List.mem_of_find?_eq_some hfind
    obtain ⟨hcaches, hrows⟩ := h.caches.build hall (h.caches.through cache hmem)
      (h.caches.covers cache hmem) hread
    exact h.rows_congr hcaches hrows
  | none =>
    simp only [hfind] at hread
    obtain ⟨room, hroom, hread⟩ := Option.bind_eq_some_iff.mp hread
    obtain ⟨hcaches, hrows, hkept⟩ := h.caches.makeRoom hroom
    -- no cache of the query is kept, so its buckets are purged
    have hnew : query ∉ room.caches.map Cache.query := by
      intro hclash
      obtain ⟨cache, hmem, hquery⟩ := List.mem_map.mp hclash
      have hno := List.find?_eq_none.mp hfind cache (hkept cache hmem)
      exact hno (decide_eq_true hquery)
    have hpurged : (purgeBuckets room).buckets query = fun _ => none := if_neg hnew
    have hstart : Covers dayOf (Cache.empty query) ((purgeBuckets room).buckets query)
        (included (Cache.empty query) (purgeBuckets room).rows) := by
      rw [hpurged]
      have hnone : included (Cache.empty query) (purgeBuckets room).rows = [] := rfl
      rw [hnone]
      exact Covers.empty query
    have hall' : ∀ row ∈ (purgeBuckets room).rows, ∃ fact, row.contribution = some fact := by
      show ∀ row ∈ room.rows, ∃ fact, row.contribution = some fact
      rw [hrows]
      exact hall
    obtain ⟨hbuilt, hsame⟩ :=
      hcaches.purgeBuckets.build hall' (Nat.zero_le _) hstart hread
    exact h.rows_congr hbuilt (hsame.trans hrows)

theorem Consistent.step {s t : UsageStore} {event : Event} (h : Consistent dayOf s)
    (hfollowed : FollowedUp s event) (hstep : step dayOf s event = some t) :
    Consistent dayOf t := by
  cases event with
  | put fact =>
    obtain rfl := Option.some.inj hstep
    cases hput : Store.putFact dayOf s fact with
    | none => exact h
    | some updated => exact h.putFact hfollowed hput
  | aggregate query =>
    obtain rfl := Option.some.inj hstep
    cases hread : Store.aggregate dayOf s query with
    | none => exact h
    | some updated => exact h.aggregate hread

theorem Consistent.empty : Consistent dayOf UsageStore.empty := by
  refine ⟨⟨List.nodup_nil, ?_, ?_⟩, ?_⟩
  · intro cache hmem
    cases hmem
  · intro cache hmem
    cases hmem
  · intro idx row hrow
    cases hrow

theorem Consistent.contributions (h : Consistent dayOf s) (n : Nat) :
    (s.rows.take n).filterMap FactRow.contribution = (scratch s.facts).take n := by
  have hrows : s.rows.map FactRow.contribution = (scratch s.facts).map some := by
    apply List.ext_getElem?
    intro idx
    cases hrow : s.rows[idx]? with
    | none =>
      simp [scratch, UsageStore.facts, hrow]
    | some row =>
      have hfresh := h.fresh idx row hrow id
      simp [scratch, facts_getElem hrow, hrow, hfresh]
  have htaken : (s.rows.take n).map FactRow.contribution = ((scratch s.facts).take n).map some := by
    rw [List.map_take, List.map_take, hrows]
  calc (s.rows.take n).filterMap FactRow.contribution
      = ((s.rows.take n).map FactRow.contribution).filterMap id := by simp [List.filterMap_map]
    _ = (((scratch s.facts).take n).map some).filterMap id := by rw [htaken]
    _ = (scratch s.facts).take n := by simp [List.filterMap_map]

theorem followedUp_new (h : ∀ row ∈ s.rows, row.key ≠ factKey fact) : FollowedUp s (.put fact) := by
  intro rows idx hupsert later hlt hmeasured
  have hnone : s.rows.findIdx? (fun row => row.key == factKey fact) = none :=
    List.findIdx?_eq_none_iff.mpr fun row hrow => by simpa using h row hrow
  unfold upsert at hupsert
  rw [hnone] at hupsert
  obtain ⟨rfl, rfl⟩ := Prod.mk.inj (Option.some.inj hupsert)
  simp only [List.length_append, List.length_singleton] at hlt
  exfalso
  rcases hmeasured with hbefore | hafter
  · have hless := measuredAgainst_lt hbefore
    omega
  · have hless := measuredAgainst_lt hafter
    omega

/-- Among facts of one runtime, a correction that keeps the mode, the epoch and the model is
followed up. -/
theorem followedUp_kept (hruntime : ∀ row ∈ s.rows, row.fact.runtime = fact.runtime)
    (hkept : ∀ row ∈ s.rows, row.key = factKey fact →
      row.fact.epoch = fact.epoch ∧ row.fact.mode = fact.mode ∧ row.fact.model = fact.model) :
    FollowedUp s (.put fact) := by
  by_cases hnew : ∀ row ∈ s.rows, row.key ≠ factKey fact
  · exact followedUp_new hnew
  · intro rows idx hupsert later hlt hmeasured
    unfold upsert at hupsert
    cases hplace : s.rows.findIdx? fun row => row.key == factKey fact with
    | none =>
      exfalso
      apply hnew
      intro row hrow
      have hno := List.findIdx?_eq_none_iff.mp hplace row hrow
      simpa using hno
    | some place =>
      obtain ⟨hplaceLt, hkey, _⟩ := List.findIdx?_eq_some_iff_getElem.mp hplace
      have hrow : s.rows[place]? = some s.rows[place] := List.getElem?_eq_getElem hplaceLt
      have hmem : s.rows[place] ∈ s.rows := List.getElem_mem hplaceLt
      obtain ⟨hepoch, hmode, hmodel⟩ := hkept _ hmem (by simpa using hkey)
      simp only [hplace, hrow] at hupsert
      split at hupsert
      · cases hupsert
      · obtain ⟨rfl, rfl⟩ := Prod.mk.inj (Option.some.inj hupsert)
        rw [List.map_set] at hmeasured ⊢
        have hsameNext : nextIdx ((s.rows.map FactRow.fact).set place fact) fact place =
            nextIdx s.facts s.rows[place].fact place :=
          nextIdx_set hepoch.symm (hruntime _ hmem).symm hmodel.symm
        rcases hmeasured with hbefore | hafter
        · have hall : ∀ other ∈ s.facts, other.runtime = s.rows[place].fact.runtime := by
            intro other hother
            obtain ⟨row, hin, rfl⟩ := List.mem_map.mp hother
            rw [hruntime row hin, hruntime _ hmem]
          obtain ⟨hcounter, hnext⟩ := nextIdx_of_measured (facts_getElem hrow) hall hbefore
          rw [hsameNext]
          exact ⟨hmode.symm.trans hcounter, hnext⟩
        · have hall : ∀ other ∈ (s.rows.map FactRow.fact).set place fact,
              other.runtime = fact.runtime := by
            intro other hother
            rcases List.mem_or_eq_of_mem_set hother with hold | hsame
            · obtain ⟨row, hin, rfl⟩ := List.mem_map.mp hold
              exact hruntime row hin
            · rw [hsame]
          have hself : ((s.rows.map FactRow.fact).set place fact)[place]? = some fact := by
            rw [List.getElem?_set_self (by simpa using hplaceLt)]
          exact nextIdx_of_measured hself hall hafter

/-- The contributions a cache stands for, from scratch. -/
def covered (s : UsageStore) (cache : Cache) : List UsageFact :=
  if cache.complete then scratch s.facts else (scratch s.facts).take cache.through

/-- In a run whose corrections are all followed up, every cache is at every moment the one a
computation from scratch gives: over all facts when it is complete, and while it is building over
the facts up to its sequence number. -/
theorem caches_match_recomputation {events : List Event} {s : UsageStore}
    (hrun : run (Store.step dayOf) UsageStore.empty events = some s)
    (hall : Along (Store.step dayOf) FollowedUp UsageStore.empty events) :
    ∀ cache ∈ s.caches, ∃ fresh stored,
      recompute dayOf cache.query (covered s cache) = some (fresh, stored) ∧
      SameCache cache fresh (s.buckets cache.query) stored := by
  intro cache hmem
  have hconsistent : Consistent dayOf s :=
    run_invariant_along (fun _ _ _ h hfollowed hstep => h.step hfollowed hstep) hrun hall
      Consistent.empty
  have hcovers := hconsistent.caches.covers cache hmem
  have hsame : included cache s.rows = covered s cache := by
    unfold included covered
    split
    · have hevery := hconsistent.contributions s.rows.length
      have hlength : (scratch s.facts).length = s.rows.length := by
        simp [scratch, UsageStore.facts]
      rwa [List.take_length, ← hlength, List.take_length] at hevery
    · exact hconsistent.contributions cache.through
  rw [hsame] at hcovers
  exact hcovers.recompute

end

def inputCounter (id : String) (input : Nat) (mode : UsageMode) : UsageFact :=
  { id, runtime := .codex, model := some "gpt", provider := none
    «at» := some "2026-01-01T10:00:00.000Z"
    observedAt := "2026-01-01T10:00:01.000Z"
    scope := .session, mode, epoch := "e1"
    inputIncludesCache := none, outputIncludesReasoning := none
    metrics := fun field => if field = .inputTokens then some input else none
    provenance := none, cost := none, identity := .native, details := none
    counterAmbiguous := none }

def everything : UsageQuery := ⟨none, none, "UTC"⟩

/-- A counter is corrected while it stays a counter. -/
def keptCounter : List Event :=
  [.put (inputCounter "a" 10 .cumulative), .put (inputCounter "b" 25 .cumulative),
    .aggregate everything, .put (inputCounter "a" 12 .cumulative), .aggregate everything]

theorem caches_match_recomputation_kept :
    ∃ s, run (step fun _ _ => "2026-01-01") UsageStore.empty keptCounter = some s ∧
      s.caches.map (fun cache => (cache.complete, cache.self.values .inputTokens)) =
        [(true, some 25)] ∧
      ∀ cache ∈ s.caches, ∃ fresh stored,
        recompute (fun _ _ => "2026-01-01") cache.query (covered s cache) = some (fresh, stored) ∧
        SameCache cache fresh (s.buckets cache.query) stored := by
  have hrun : run (step fun _ _ => "2026-01-01") UsageStore.empty keptCounter = some _ := rfl
  refine ⟨_, hrun, by decide, caches_match_recomputation hrun ?_⟩
  refine ⟨followedUp_new (by decide), fun t ht => ?_⟩
  obtain rfl := Option.some.inj ht
  refine ⟨followedUp_new (by decide), fun t ht => ?_⟩
  obtain rfl := Option.some.inj ht
  refine ⟨trivial, fun t ht => ?_⟩
  obtain rfl := Option.some.inj ht
  refine ⟨followedUp_kept (by decide) (by decide), fun t ht => ?_⟩
  obtain rfl := Option.some.inj ht
  exact ⟨trivial, fun _ _ => trivial⟩

/-- A counter is corrected to a plain amount after a later counter was measured against it. -/
def droppedCounter : List Event :=
  [.put (inputCounter "a" 10 .cumulative), .put (inputCounter "b" 25 .cumulative),
    .aggregate everything, .put (inputCounter "a" 10 .replacement)]

def afterDrop : UsageStore :=
  (run (step fun _ _ => "2026-01-01") UsageStore.empty droppedCounter).getD .empty

/-- The later counter keeps the step it had, so its cache misses what it now adds. -/
theorem dropped_counter_leaves_cache_behind :
    ¬ ∀ (dayOf : String → String → String) (events : List Event) (s : UsageStore),
      run (step dayOf) UsageStore.empty events = some s →
      ∀ cache ∈ s.caches, ∃ fresh stored,
        recompute dayOf cache.query (covered s cache) = some (fresh, stored) ∧
        SameCache cache fresh (s.buckets cache.query) stored := by
  intro h
  have hrun : run (step fun _ _ => "2026-01-01") UsageStore.empty droppedCounter =
      some afterDrop := rfl
  have hbehind : ∃ cache ∈ afterDrop.caches, cache.self.values .inputTokens = some 25 ∧
      (recompute (fun _ _ => "2026-01-01") cache.query (covered afterDrop cache)).map
        (fun fresh => fresh.1.self.values .inputTokens) = some (some 35) := by decide
  obtain ⟨cache, hmem, hself, hscratch⟩ := hbehind
  obtain ⟨fresh, stored, hfresh, hsame⟩ := h _ droppedCounter afterDrop hrun cache hmem
  rw [hfresh] at hscratch
  have hvalues : fresh.self.values .inputTokens = some 35 := Option.some.inj hscratch
  have hclash := congrFun hsame.self.values .inputTokens
  rw [hself, hvalues] at hclash
  exact absurd hclash (by decide)

end Ccmux.Usage.Store
