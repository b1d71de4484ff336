/- Module: Ccmux/Usage/Recompute
   source: src/usage/store.ts, src/usage/aggregate.ts
   digest: Query caches are at every moment what a computation from scratch would give. -/

import Ccmux.Usage.Neighbors

namespace Ccmux.Usage.Store

open Ccmux.Lib.Machine
open Ccmux.Usage.Schema
open Ccmux.Usage.Contribution
open Ccmux.Usage.Aggregate

/-- The stored contributions a cache has taken in. -/
def included (cache : Cache) (rows : List FactRow) : List UsageFact :=
  (if cache.complete then rows else rows.take cache.through).filterMap FactRow.contribution

section
variable (dayOf : String → String → String)

/-- Every cache of the store covers the contributions of the rows it has taken in. -/
structure CachesCover (s : UsageStore) (rows : List FactRow) : Prop where
  keys : (s.caches.map Cache.query).Nodup
  through : ∀ cache ∈ s.caches, cache.through ≤ rows.length
  covers : ∀ cache ∈ s.caches, Covers dayOf cache (s.buckets cache.query) (included cache rows)

/-- In the middle of a correction: the caches still to do cover the old rows, the others the new. -/
structure Halfway (s : UsageStore) (rows changed : List FactRow) (todo : List Cache) : Prop where
  keys : (s.caches.map Cache.query).Nodup
  through : ∀ cache ∈ s.caches, cache.through ≤ rows.length
  todoKeys : (todo.map Cache.query).Nodup
  todoMem : ∀ cache ∈ todo, cache ∈ s.caches
  covers : ∀ cache ∈ s.caches,
    (cache ∈ todo ∧ Covers dayOf cache (s.buckets cache.query) (included cache rows)) ∨
    (cache.query ∉ todo.map Cache.query ∧
      Covers dayOf cache (s.buckets cache.query) (included cache changed))

variable {dayOf}

/-- Giving the row at the index a contribution, in the multiset of contributions. -/
theorem contributions_set {rows : List FactRow} {idx : Nat} {row : FactRow} (next : UsageFact)
    (hrow : rows[idx]? = some row) :
    ∃ rest : Multiset UsageFact,
      (rows.filterMap FactRow.contribution : Multiset UsageFact) =
        (row.contribution.toList : Multiset UsageFact) + rest ∧
      ((rows.set idx { row with contribution := some next }).filterMap FactRow.contribution :
        Multiset UsageFact) = next ::ₘ rest := by
  induction rows generalizing idx with
  | nil => simp at hrow
  | cons first others ih =>
    cases idx with
    | zero =>
      have hfirst : first = row := by simpa using hrow
      refine ⟨(others.filterMap FactRow.contribution : List UsageFact), ?_, ?_⟩
      · rw [hfirst]
        cases hold : row.contribution with
        | none => simp [hold]
        | some old => simp [hold, Multiset.cons_coe]
      · simp
    | succ idx =>
      obtain ⟨rest, hbefore, hafter⟩ := ih (by simpa using hrow)
      cases hkept : first.contribution with
      | none =>
        refine ⟨rest, ?_, ?_⟩
        · simpa [List.filterMap_cons, hkept] using hbefore
        · simpa [List.filterMap_cons, hkept] using hafter
      | some kept =>
        refine ⟨kept ::ₘ rest, ?_, ?_⟩
        · simp only [List.filterMap_cons, hkept, ← Multiset.cons_coe, hbefore, Multiset.add_cons]
        · simp only [List.set_cons_succ, List.filterMap_cons, hkept, ← Multiset.cons_coe, hafter]
          rw [Multiset.cons_swap]

/-- One cache through a correction: it is skipped, or its row is written anew. -/
theorem updateCache_covers {s updated : UsageStore} {cache : Cache} {rows : List FactRow}
    {row : FactRow} {idx : Nat} {next : UsageFact}
    (hcovers : Covers dayOf cache (s.buckets cache.query) (included cache rows))
    (hrow : rows[idx]? = some row)
    (h : updateCache dayOf s row.contribution next (idx + 1) cache = some updated) :
    let changed := rows.set idx { row with contribution := some next }
    (updated = s ∧ Covers dayOf cache (s.buckets cache.query) (included cache changed)) ∨
    ∃ written buckets, updated = s.write written buckets ∧ written.query = cache.query ∧
      written.through = cache.through ∧ Covers dayOf written buckets (included written changed) := by
  intro changed
  unfold updateCache at h
  by_cases hskip : (!cache.complete && decide (cache.through < idx + 1)) = true
  · rw [if_pos hskip] at h
    obtain rfl := Option.some.inj h
    left
    refine ⟨rfl, ?_⟩
    simp only [Bool.and_eq_true, Bool.not_eq_true', decide_eq_true_eq] at hskip
    obtain ⟨hbuilding, hthrough⟩ := hskip
    have hsame : included cache changed = included cache rows := by
      simp only [included, hbuilding, Bool.false_eq_true, if_false, changed]
      rw [List.take_set_of_le (by omega)]
    rw [hsame]
    exact hcovers
  · rw [if_neg hskip] at h
    right
    -- the rows the cache has taken in hold the corrected row at the same index
    have htaken : ∃ rest : Multiset UsageFact,
        (included cache rows : Multiset UsageFact) =
          (row.contribution.toList : Multiset UsageFact) + rest ∧
        (included cache changed : Multiset UsageFact) = next ::ₘ rest := by
      unfold included
      by_cases hcomplete : cache.complete = true
      · rw [if_pos hcomplete, if_pos hcomplete]
        exact contributions_set next hrow
      · have hthrough : idx < cache.through := by
          have hbuilding : cache.complete = false := by simpa using hcomplete
          simp only [hbuilding, Bool.not_false, Bool.true_and, decide_eq_true_eq] at hskip
          omega
        rw [if_neg hcomplete, if_neg hcomplete]
        simp only [changed]
        rw [List.take_set]
        exact contributions_set next (by rw [List.getElem?_take_of_lt hthrough, hrow])
    obtain ⟨rest, hbefore, hafter⟩ := htaken
    rw [hbefore] at hcovers
    simp only [Option.bind_eq_bind, Option.bind_eq_some_iff, Option.some.injEq] at h
    obtain ⟨without, hwithout, applied, happlied, rfl⟩ := h
    have hrest : Covers dayOf without.1 without.2 rest ∧ without.1.query = cache.query ∧
        without.1.through = cache.through ∧ without.1.complete = cache.complete := by
      cases hold : row.contribution with
      | none =>
        rw [hold] at hwithout hcovers
        obtain rfl := Option.some.inj hwithout
        exact ⟨by simpa using hcovers, rfl, rfl, rfl⟩
      | some old =>
        rw [hold] at hwithout hcovers
        have hcons : Covers dayOf cache (s.buckets cache.query) (old ::ₘ rest) := by
          simpa using hcovers
        exact ⟨hcons.apply (.less rest) hwithout, apply_frame hwithout⟩
    obtain ⟨hcoversRest, hquery, hthrough, hcomplete⟩ := hrest
    obtain ⟨hquery', hthrough', hcomplete'⟩ := apply_frame happlied
    refine ⟨applied.1, applied.2, rfl, hquery'.trans hquery, hthrough'.trans hthrough, ?_⟩
    have hsame : included applied.1 changed = included cache changed := by
      simp only [included, hthrough', hthrough, hcomplete', hcomplete]
    rw [hsame, hafter]
    exact hcoversRest.apply (.more rest) happlied

theorem mem_write {s : UsageStore} {cache other : Cache} {buckets : Buckets} :
    other ∈ (s.write cache buckets).caches ↔
      (other ∈ s.caches ∧ other.query ≠ cache.query) ∨ other = cache := by
  simp [UsageStore.write]

theorem write_keys {s : UsageStore} (cache : Cache) (buckets : Buckets)
    (h : (s.caches.map Cache.query).Nodup) :
    ((s.write cache buckets).caches.map Cache.query).Nodup := by
  simp only [UsageStore.write, List.map_append, List.map_cons, List.map_nil]
  refine List.nodup_append.mpr ⟨?_, List.nodup_singleton _, ?_⟩
  · exact (List.Sublist.map _ List.filter_sublist).nodup h
  · intro a ha b hb hab
    obtain ⟨other, hother, hquery⟩ := List.mem_map.mp ha
    have hne : other.query ≠ cache.query := by simpa using (List.mem_filter.mp hother).2
    have hb' : b = cache.query := by simpa using hb
    exact hne (by rw [hquery, hab, hb'])

theorem write_buckets_self (s : UsageStore) (cache : Cache) (buckets : Buckets) :
    (s.write cache buckets).buckets cache.query = buckets := by
  simp [UsageStore.write]

theorem write_buckets_ne {s : UsageStore} {cache : Cache} {buckets : Buckets} {query : UsageQuery}
    (h : query ≠ cache.query) : (s.write cache buckets).buckets query = s.buckets query := by
  simp [UsageStore.write, h]

/-- The first cache to do is done. -/
theorem Halfway.updateCache {s updated : UsageStore} {rows : List FactRow} {row : FactRow}
    {idx : Nat} {next : UsageFact} {cache : Cache} {todo : List Cache}
    (h : Halfway dayOf s rows (rows.set idx { row with contribution := some next }) (cache :: todo))
    (hrow : rows[idx]? = some row)
    (hupdate : updateCache dayOf s row.contribution next (idx + 1) cache = some updated) :
    Halfway dayOf updated rows (rows.set idx { row with contribution := some next }) todo ∧
      updated.rows = s.rows := by
  have hin : cache ∈ s.caches := h.todoMem cache List.mem_cons_self
  obtain ⟨hnew, htodoKeys⟩ := List.nodup_cons.mp h.todoKeys
  -- the other caches differ from this one by their query
  have hother (other : Cache) (hmem : other ∈ s.caches) (hne : other.query ≠ cache.query) :
      (other ∈ todo ∧ Covers dayOf other (s.buckets other.query) (included other rows)) ∨
      (other.query ∉ todo.map Cache.query ∧ Covers dayOf other (s.buckets other.query)
        (included other (rows.set idx { row with contribution := some next }))) := by
    rcases h.covers other hmem with ⟨htodo, hcovers⟩ | ⟨hdone, hcovers⟩
    · rcases List.mem_cons.mp htodo with hsame | hlater
      · rw [hsame] at hne
        exact absurd rfl hne
      · exact Or.inl ⟨hlater, hcovers⟩
    · right
      refine ⟨?_, hcovers⟩
      intro hlater
      exact hdone (List.mem_cons_of_mem _ hlater)
  have hsame (other : Cache) (hmem : other ∈ s.caches) (hquery : other.query = cache.query) :
      other = cache := List.inj_on_of_nodup_map h.keys hmem hin hquery
  have hcovers : Covers dayOf cache (s.buckets cache.query) (included cache rows) := by
    rcases h.covers cache hin with ⟨_, hcovers⟩ | ⟨hdone, _⟩
    · exact hcovers
    · exact absurd (List.mem_cons_self) hdone
  rcases updateCache_covers hcovers hrow hupdate with
    ⟨rfl, hdone⟩ | ⟨written, buckets, rfl, hquery, hthrough, hdone⟩
  · refine ⟨⟨h.keys, h.through, htodoKeys,
      fun other hmem => h.todoMem other (List.mem_cons_of_mem _ hmem), ?_⟩, rfl⟩
    intro other hmem
    by_cases hne : other.query = cache.query
    · rw [hsame other hmem hne]
      exact Or.inr ⟨hnew, hdone⟩
    · exact hother other hmem hne
  · refine ⟨⟨write_keys written buckets h.keys, ?_, htodoKeys, ?_, ?_⟩, rfl⟩
    · intro other hmem
      rcases mem_write.mp hmem with ⟨hold, _⟩ | hlast
      · exact h.through other hold
      · rw [hlast, hthrough]
        exact h.through cache hin
    · intro other hmem
      refine mem_write.mpr (Or.inl ⟨h.todoMem other (List.mem_cons_of_mem _ hmem), ?_⟩)
      intro hclash
      rw [hquery] at hclash
      apply hnew
      rw [← hclash]
      exact List.mem_map_of_mem hmem
    · intro other hmem
      rcases mem_write.mp hmem with ⟨hold, hne⟩ | hlast
      · rw [write_buckets_ne hne]
        rw [hquery] at hne
        exact hother other hold hne
      · rw [hlast, write_buckets_self, hquery]
        exact Or.inr ⟨hnew, hdone⟩

theorem Halfway.foldlM {s updated : UsageStore} {rows : List FactRow} {row : FactRow} {idx : Nat}
    {next : UsageFact} {todo : List Cache}
    (h : Halfway dayOf s rows (rows.set idx { row with contribution := some next }) todo)
    (hrow : rows[idx]? = some row)
    (hfold : todo.foldlM (fun held cache =>
      Store.updateCache dayOf held row.contribution next (idx + 1) cache) s = some updated) :
    Halfway dayOf updated rows (rows.set idx { row with contribution := some next }) [] ∧
      updated.rows = s.rows := by
  induction todo generalizing s with
  | nil =>
    obtain rfl := Option.some.inj hfold
    exact ⟨h, rfl⟩
  | cons cache todo ih =>
    simp only [List.foldlM_cons, Option.bind_eq_bind, Option.bind_eq_some_iff] at hfold
    obtain ⟨held, hupdate, hrest⟩ := hfold
    obtain ⟨hheld, hrows⟩ := h.updateCache hrow hupdate
    obtain ⟨hdone, hsame⟩ := ih hheld hrest
    exact ⟨hdone, hsame.trans hrows⟩

/-- Materializing the fact at an index sets its contribution in the table and in every cache. -/
theorem CachesCover.materialize {s updated : UsageStore} {idx : Nat}
    (h : CachesCover dayOf s s.rows) (hmat : materialize dayOf s idx = some updated) :
    CachesCover dayOf updated updated.rows ∧
    ∃ row, s.rows[idx]? = some row ∧ updated.rows = s.rows.set idx
      { row with contribution := some (contributionOf s.facts idx row.fact) } := by
  unfold Store.materialize at hmat
  cases hrow : s.rows[idx]? with
  | none => simp [hrow] at hmat
  | some row =>
    simp only [hrow] at hmat
    obtain ⟨corrected, hupdate, rfl⟩ := Option.map_eq_some_iff.mp hmat
    have hstart : Halfway dayOf s s.rows
        (s.rows.set idx { row with contribution := some (contributionOf s.facts idx row.fact) })
        s.caches :=
      ⟨h.keys, h.through, h.keys, fun _ hmem => hmem,
        fun cache hmem => Or.inl ⟨hmem, h.covers cache hmem⟩⟩
    obtain ⟨hdone, hrows⟩ := hstart.foldlM hrow hupdate
    simp only [hrows]
    refine ⟨⟨hdone.keys, ?_, ?_⟩, row, rfl, rfl⟩
    · intro cache hmem
      rw [List.length_set]
      exact hdone.through cache hmem
    · intro cache hmem
      rcases hdone.covers cache hmem with ⟨hnone, _⟩ | ⟨_, hcovers⟩
      · cases hnone
      · exact hcovers

theorem CachesCover.rows {s : UsageStore} {rows changed : List FactRow}
    (h : CachesCover dayOf s rows) (hlength : rows.length ≤ changed.length)
    (hall : changed.filterMap FactRow.contribution = rows.filterMap FactRow.contribution)
    (htake : ∀ n ≤ rows.length, (changed.take n).filterMap FactRow.contribution =
      (rows.take n).filterMap FactRow.contribution) :
    CachesCover dayOf { s with rows := changed } changed := by
  refine ⟨h.keys, fun cache hmem => (h.through cache hmem).trans hlength, ?_⟩
  intro cache hmem
  have hsame : included cache changed = included cache rows := by
    unfold included
    split
    · exact hall
    · exact htake _ (h.through cache hmem)
  rw [hsame]
  exact h.covers cache hmem

theorem filterMap_setFact {rows : List FactRow} {idx : Nat} {row : FactRow} (fact : UsageFact)
    (hrow : rows[idx]? = some row) :
    (rows.set idx { row with fact }).filterMap FactRow.contribution =
      rows.filterMap FactRow.contribution := by
  induction rows generalizing idx with
  | nil => simp at hrow
  | cons first others ih =>
    cases idx with
    | zero =>
      have hfirst : first = row := by simpa using hrow
      simp [List.filterMap_cons, hfirst]
    | succ idx =>
      have hrest := ih (by simpa using hrow)
      simp only [List.set_cons_succ, List.filterMap_cons, hrest]

theorem upsert_some {rows changed : List FactRow} {fact : UsageFact} {idx : Nat}
    (h : upsert rows fact = some (changed, idx)) :
    (∃ row, rows[idx]? = some row ∧ changed = rows.set idx { row with fact }) ∨
    (idx = rows.length ∧ changed = rows ++ [⟨factKey fact, fact, none⟩]) := by
  unfold upsert at h
  split at h
  · next place _ =>
    split at h
    · next row hrow =>
      split at h
      · cases h
      · obtain ⟨rfl, rfl⟩ := Prod.mk.inj (Option.some.inj h)
        exact Or.inl ⟨row, hrow, rfl⟩
    · cases h
  · obtain ⟨rfl, rfl⟩ := Prod.mk.inj (Option.some.inj h)
    exact Or.inr ⟨rfl, rfl⟩

theorem CachesCover.upsert {s : UsageStore} {changed : List FactRow} {fact : UsageFact} {idx : Nat}
    (h : CachesCover dayOf s s.rows) (hupsert : upsert s.rows fact = some (changed, idx)) :
    CachesCover dayOf { s with rows := changed } changed := by
  rcases upsert_some hupsert with ⟨row, hrow, rfl⟩ | ⟨_, rfl⟩
  · apply h.rows
    · rw [List.length_set]
    · exact filterMap_setFact fact hrow
    · intro n _
      by_cases hlt : idx < n
      · rw [List.take_set]
        exact filterMap_setFact fact (by rw [List.getElem?_take_of_lt hlt, hrow])
      · rw [List.take_set_of_le (by omega)]
  · apply h.rows
    · simp
    · simp [List.filterMap_append]
    · intro n hn
      rw [List.take_append_of_le_length hn]

/-- Outside the stale places every row holds its contribution from scratch. -/
def FreshExcept (s : UsageStore) (stale : Nat → Prop) : Prop :=
  ∀ idx row, s.rows[idx]? = some row → ¬ stale idx →
    row.contribution = some (contributionOf s.facts idx row.fact)

theorem facts_getElem {s : UsageStore} {idx : Nat} {row : FactRow}
    (h : s.rows[idx]? = some row) : s.facts[idx]? = some row.fact := by
  simp [UsageStore.facts, h]

theorem materialized_facts {s updated : UsageStore} {idx : Nat} {row : FactRow} {next : UsageFact}
    (hrow : s.rows[idx]? = some row)
    (hrows : updated.rows = s.rows.set idx { row with contribution := some next }) :
    updated.facts = s.facts := by
  unfold UsageStore.facts
  rw [hrows, List.map_set]
  apply List.ext_getElem?
  intro place
  by_cases hplace : idx = place
  · subst hplace
    have hlt : idx < s.rows.length := (List.getElem?_eq_some_iff.mp hrow).1
    rw [List.getElem?_set_self (by simpa using hlt)]
    simp [hrow]
  · rw [List.getElem?_set_ne hplace]

theorem FreshExcept.materialize {s updated : UsageStore} {idx : Nat} {row : FactRow}
    {stale : Nat → Prop} (h : FreshExcept s stale) (hrow : s.rows[idx]? = some row)
    (hrows : updated.rows = s.rows.set idx
      { row with contribution := some (contributionOf s.facts idx row.fact) }) :
    FreshExcept updated fun place => stale place ∧ place ≠ idx := by
  intro place found hfound hfresh
  rw [materialized_facts hrow hrows]
  rw [hrows] at hfound
  by_cases hplace : idx = place
  · subst hplace
    have hlt : idx < s.rows.length := (List.getElem?_eq_some_iff.mp hrow).1
    rw [List.getElem?_set_self hlt] at hfound
    obtain rfl := Option.some.inj hfound
    rfl
  · rw [List.getElem?_set_ne hplace] at hfound
    apply h place found hfound
    intro hstale
    exact hfresh ⟨hstale, Ne.symm hplace⟩

/-- What an upsert leaves stale: its own place, and the counters measured against it. -/
theorem FreshExcept.upsert {s : UsageStore} {changed : List FactRow} {fact : UsageFact} {idx : Nat}
    (h : FreshExcept s fun _ => False) (hupsert : upsert s.rows fact = some (changed, idx)) :
    FreshExcept { s with rows := changed } fun place => place = idx ∨
      place < changed.length ∧ (measuredAgainst s.facts place = some idx ∨
        measuredAgainst (changed.map FactRow.fact) place = some idx) := by
  intro place found hfound hfresh
  have hne : place ≠ idx := fun hplace => hfresh (Or.inl hplace)
  have hlt : place < changed.length := (List.getElem?_eq_some_iff.mp hfound).1
  have hnot : ¬ (measuredAgainst s.facts place = some idx ∨
      measuredAgainst (changed.map FactRow.fact) place = some idx) :=
    fun hmeasured => hfresh (Or.inr ⟨hlt, hmeasured⟩)
  obtain ⟨hbefore, hafter⟩ := not_or.mp hnot
  show found.contribution = some (contributionOf (changed.map FactRow.fact) place found.fact)
  rcases upsert_some hupsert with ⟨row, _, rfl⟩ | ⟨rfl, rfl⟩
  · have hold : s.rows[place]? = some found := by
      rwa [List.getElem?_set_ne (Ne.symm hne)] at hfound
    rw [List.map_set] at hafter ⊢
    have hsame : contributionOf ((s.rows.map FactRow.fact).set idx fact) place found.fact =
        contributionOf s.facts place found.fact :=
      contributionOf_set (facts_getElem hold) hne hbefore hafter
    rw [hsame]
    exact h place found hold id
  · have hplace : place < s.rows.length := by
      simp only [List.length_append, List.length_singleton] at hlt
      omega
    have hold : s.rows[place]? = some found := by
      rwa [List.getElem?_append_left hplace] at hfound
    have hsame : contributionOf (s.rows.map FactRow.fact ++ [fact]) place found.fact =
        contributionOf s.facts place found.fact :=
      contributionOf_append (by simpa using hplace)
    simp only [List.map_append, List.map_cons, List.map_nil]
    rw [hsame]
    exact h place found hold id

theorem FreshExcept.weaken {s : UsageStore} {stale more : Nat → Prop} (h : FreshExcept s stale)
    (hle : ∀ idx < s.rows.length, stale idx → more idx) : FreshExcept s more := by
  intro idx row hrow hfresh
  apply h idx row hrow
  intro hstale
  exact hfresh (hle idx (List.getElem?_eq_some_iff.mp hrow).1 hstale)

variable (dayOf)

/-- The tables agree with a computation from scratch. -/
structure Consistent (s : UsageStore) : Prop where
  caches : CachesCover dayOf s s.rows
  fresh : FreshExcept s fun _ => False

variable {dayOf}

/-- A followed-up write leaves the tables consistent. -/
theorem Consistent.putFact {s updated : UsageStore} {fact : UsageFact}
    (h : Consistent dayOf s) (hfollowed : FollowedUp s (.put fact))
    (hput : putFact dayOf s fact = some updated) : Consistent dayOf updated := by
  unfold Store.putFact at hput
  cases hupsert : upsert s.rows fact with
  | none =>
    simp only [hupsert] at hput
    obtain rfl := Option.some.inj hput
    exact h
  | some written =>
    obtain ⟨rows, idx⟩ := written
    simp only [hupsert] at hput
    have hcaches := h.caches.upsert hupsert
    have hnext := hfollowed rows idx hupsert
    unfold record at hput
    simp only [Option.bind_eq_bind, Option.bind_eq_some_iff] at hput
    obtain ⟨first, hfirst, hlater⟩ := hput
    let noted : UsageStore := { s with rows, revision := s.revision + 1 }
    have hnoted : CachesCover dayOf noted noted.rows :=
      ⟨hcaches.keys, hcaches.through, hcaches.covers⟩
    have hfresh : FreshExcept noted fun place => place = idx ∨
        place < rows.length ∧ (measuredAgainst s.facts place = some idx ∨
          measuredAgainst (rows.map FactRow.fact) place = some idx) := h.fresh.upsert hupsert
    obtain ⟨hcovers, row, hrow, hrows⟩ := hnoted.materialize hfirst
    have hfacts : first.facts = rows.map FactRow.fact := materialized_facts hrow hrows
    have hrest := hfresh.materialize hrow hrows
    rw [hfacts] at hlater
    by_cases hmode : fact.mode = .cumulative
    · rw [if_pos hmode] at hlater
      cases hlast : nextIdx (rows.map FactRow.fact) fact idx with
      | none =>
        simp only [hlast] at hlater
        obtain rfl := Option.some.inj hlater
        refine ⟨hcovers, hrest.weaken ?_⟩
        intro place _ ⟨hstale, hne⟩
        rcases hstale with hsame | ⟨hlt, hmeasured⟩
        · exact hne hsame
        · have hfound := (hnext place hlt hmeasured).2
          rw [hlast] at hfound
          cases hfound
      | some later =>
        simp only [hlast] at hlater
        obtain ⟨hcovers', row', hrow', hrows'⟩ := hcovers.materialize hlater
        refine ⟨hcovers', (hrest.materialize hrow' hrows').weaken ?_⟩
        intro place _ ⟨⟨hstale, hne⟩, hother⟩
        rcases hstale with hsame | ⟨hlt, hmeasured⟩
        · exact hne hsame
        · have hfound := (hnext place hlt hmeasured).2
          rw [hlast] at hfound
          exact hother (Option.some.inj hfound).symm
    · rw [if_neg hmode] at hlater
      obtain rfl := Option.some.inj hlater
      refine ⟨hcovers, hrest.weaken ?_⟩
      intro place _ ⟨hstale, hne⟩
      rcases hstale with hsame | ⟨hlt, hmeasured⟩
      · exact hne hsame
      · exact hmode (hnext place hlt hmeasured).1

end

end Ccmux.Usage.Store
