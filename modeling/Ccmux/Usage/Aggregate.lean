/- Module: Ccmux/Usage/Aggregate
   source: src/usage/aggregate.ts (apply)
   digest: One signed contribution on a query's cache, and the cache as the totals of many. -/

import Ccmux.Usage.Accumulation

namespace Ccmux.Usage.Aggregate

open Ccmux.Usage.Schema
open Ccmux.Usage.Accumulation

structure Cache where
  query : UsageQuery
  self : UsageAggregate
  unattributed : UsageAggregate
  ambiguousCount : Int
  through : Nat
  complete : Bool
  deriving DecidableEq

abbrev Buckets := UsageShape → Option UsageAggregate

def Cache.empty (query : UsageQuery) : Cache :=
  ⟨query, emptyAggregate, emptyAggregate, 0, 0, false⟩

/-- The query's time filter; a fact without a time is in a query without bounds only. -/
def inQuery (query : UsageQuery) (fact : UsageFact) : Bool :=
  match fact.at with
  | none => query.since.isNone && query.until.isNone
  | some instant =>
    query.since.all (fun since => !decide (instant < since)) &&
      query.until.all fun stop => decide (instant < stop)

def isAmbiguous (fact : UsageFact) : Bool := fact.counterAmbiguous == some true

/-- The fact on the target, when the guard lets it through. -/
def addWhen (guard : Bool) (target : UsageAggregate) (fact : UsageFact) (sign : Int) :
    Option UsageAggregate :=
  if guard then addUsage target fact sign else some target

/-- The fact on its bucket; a bucket left without observations is deleted. -/
def addBucket (buckets : Buckets) (shape : UsageShape) (fact : UsageFact) (sign : Int) :
    Option Buckets :=
  (addUsage ((buckets shape).getD emptyAggregate) fact sign).map fun bucket other =>
    if other = shape then (if bucket.observations = 0 then none else some bucket)
    else buckets other

def addBucketWhen (guard : Bool) (buckets : Buckets) (shape : UsageShape) (fact : UsageFact)
    (sign : Int) : Option Buckets :=
  if guard then addBucket buckets shape fact sign else some buckets

section
variable (dayOf : String → String → String)

/-- One signed contribution on the cache and the buckets of its query; `none` is a throw. -/
def apply (cache : Cache) (buckets : Buckets) (fact : UsageFact) (sign : Int) :
    Option (Cache × Buckets) := do
  let ambiguousCount :=
    if isAmbiguous fact then cache.ambiguousCount + sign else cache.ambiguousCount
  let inside := inQuery cache.query fact
  let shape := usageBucket dayOf fact cache.query.timezone
  let unattributed ← addWhen fact.at.isNone cache.unattributed fact sign
  let self ← addWhen inside cache.self fact sign
  let stored ← addBucketWhen inside buckets shape fact sign
  some ({ cache with ambiguousCount, unattributed, self }, stored)

def shapeFacts (query : UsageQuery) (shape : UsageShape) (facts : Multiset UsageFact) :
    Multiset UsageFact :=
  facts.filter fun fact => inQuery query fact = true ∧
    usageBucket dayOf fact query.timezone = shape

/-- A bucket is stored exactly when it has facts, and then holds their totals. -/
def BucketOf (bucket : Option UsageAggregate) (facts : Multiset UsageFact) : Prop :=
  (bucket = none ∧ facts = 0) ∨ ∃ agg, bucket = some agg ∧ facts ≠ 0 ∧ Represents agg facts

/-- The cache and the buckets hold the totals of the contributions. -/
structure Covers (cache : Cache) (buckets : Buckets) (facts : Multiset UsageFact) : Prop where
  self : Represents cache.self (facts.filter fun fact => inQuery cache.query fact = true)
  unattributed : Represents cache.unattributed (facts.filter fun fact => fact.at.isNone = true)
  ambiguous : cache.ambiguousCount = (facts.filter fun fact => isAmbiguous fact = true).card
  buckets : ∀ shape, BucketOf (buckets shape) (shapeFacts dayOf cache.query shape facts)

inductive Shift (fact : UsageFact) : Int → Multiset UsageFact → Multiset UsageFact → Prop
  | more (facts : Multiset UsageFact) : Shift fact 1 facts (fact ::ₘ facts)
  | less (facts : Multiset UsageFact) : Shift fact (-1) (fact ::ₘ facts) facts

variable {dayOf}

variable {fact : UsageFact} {sign : Int} {before after facts : Multiset UsageFact} {cache : Cache}
  {buckets : Buckets}

theorem Shift.filter_pos {p : UsageFact → Prop} [DecidablePred p] (h : Shift fact sign before after)
    (hp : p fact) :
    Shift fact sign (before.filter p) (after.filter p) := by
  cases h with
  | more =>
    rw [Multiset.filter_cons_of_pos _ hp]
    exact .more _
  | less =>
    rw [Multiset.filter_cons_of_pos _ hp]
    exact .less _

theorem Shift.filter_neg {p : UsageFact → Prop} [DecidablePred p] (h : Shift fact sign before after)
    (hp : ¬ p fact) :
    before.filter p = after.filter p := by
  cases h with
  | more => rw [Multiset.filter_cons_of_neg _ hp]
  | less => rw [Multiset.filter_cons_of_neg _ hp]

theorem Shift.card (h : Shift fact sign before after) :
    (after.card : Int) = before.card + sign := by
  cases h with
  | more => simp
  | less => simp

theorem Shift.represents {agg result : UsageAggregate} (h : Shift fact sign before after)
    (hagg : Represents agg before) (hadd : addUsage agg fact sign = some result) :
    Represents result after := by
  cases h with
  | more => exact hagg.add hadd
  | less => exact hagg.remove hadd

theorem Shift.addWhen {agg result : UsageAggregate} {guard : UsageFact → Bool}
    (h : Shift fact sign before after)
    (hagg : Represents agg (before.filter fun fact => guard fact = true))
    (hadd : addWhen (guard fact) agg fact sign = some result) :
    Represents result (after.filter fun fact => guard fact = true) := by
  unfold Aggregate.addWhen at hadd
  by_cases hguard : guard fact = true
  · rw [if_pos hguard] at hadd
    exact (h.filter_pos hguard).represents hagg hadd
  · rw [if_neg hguard] at hadd
    obtain rfl := Option.some.inj hadd
    rw [← h.filter_neg hguard]
    exact hagg

theorem BucketOf.represents {bucket : Option UsageAggregate} (h : BucketOf bucket facts) :
    Represents (bucket.getD emptyAggregate) facts := by
  rcases h with ⟨hnone, hfacts⟩ | ⟨agg, hsome, _, hagg⟩
  · rw [hnone, hfacts]
    exact Represents.empty
  · rw [hsome]
    exact hagg

theorem BucketOf.stored {agg : UsageAggregate} (h : Represents agg facts) :
    BucketOf (if agg.observations = 0 then none else some agg) facts := by
  by_cases hempty : facts = 0
  · left
    have hzero : agg.observations = 0 := by simp [h.observations, hempty]
    exact ⟨if_pos hzero, hempty⟩
  · right
    have hcard : facts.card ≠ 0 := mt Multiset.card_eq_zero.mp hempty
    have hpos : agg.observations ≠ 0 := by
      rw [h.observations]
      omega
    exact ⟨agg, if_neg hpos, hempty, h⟩

theorem Covers.empty (query : UsageQuery) :
    Covers dayOf (Cache.empty query) (fun _ => none) 0 := by
  refine ⟨Represents.empty, Represents.empty, rfl, ?_⟩
  intro shape
  exact Or.inl ⟨rfl, by simp [shapeFacts]⟩

theorem apply_some {result : Cache} {stored : Buckets}
    (h : apply dayOf cache buckets fact sign = some (result, stored)) :
    ∃ unattributed self,
      addWhen fact.at.isNone cache.unattributed fact sign = some unattributed ∧
      addWhen (inQuery cache.query fact) cache.self fact sign = some self ∧
      addBucketWhen (inQuery cache.query fact) buckets
        (usageBucket dayOf fact cache.query.timezone) fact sign = some stored ∧
      result = { cache with
        ambiguousCount :=
          if isAmbiguous fact then cache.ambiguousCount + sign else cache.ambiguousCount
        unattributed, self } := by
  simp only [Aggregate.apply, Option.bind_eq_bind, Option.bind_eq_some_iff, Option.some.injEq,
    Prod.mk.injEq] at h
  obtain ⟨unattributed, hunattributed, self, hself, kept, hkept, rfl, rfl⟩ := h
  exact ⟨unattributed, self, hunattributed, hself, hkept, rfl⟩

theorem apply_frame {result : Cache} {stored : Buckets}
    (h : apply dayOf cache buckets fact sign = some (result, stored)) :
    result.query = cache.query ∧ result.through = cache.through ∧
      result.complete = cache.complete := by
  obtain ⟨_, _, _, _, _, rfl⟩ := apply_some h
  exact ⟨rfl, rfl, rfl⟩

/-- A signed fact on its bucket, when the query lets it through. -/
theorem Shift.addBucketWhen {query : UsageQuery} {stored : Buckets}
    (h : Shift fact sign before after)
    (hbuckets : ∀ shape, BucketOf (buckets shape) (shapeFacts dayOf query shape before))
    (hadd : addBucketWhen (inQuery query fact) buckets (usageBucket dayOf fact query.timezone) fact
      sign = some stored)
    (shape : UsageShape) : BucketOf (stored shape) (shapeFacts dayOf query shape after) := by
  unfold Aggregate.addBucketWhen at hadd
  by_cases hin : inQuery query fact = true
  · rw [if_pos hin] at hadd
    obtain ⟨bucket, hbucket, rfl⟩ := Option.map_eq_some_iff.mp hadd
    by_cases hshape : shape = usageBucket dayOf fact query.timezone
    · simp only [hshape, if_true]
      apply BucketOf.stored
      have hold := (hbuckets (usageBucket dayOf fact query.timezone)).represents
      exact (h.filter_pos ⟨hin, rfl⟩).represents hold hbucket
    · simp only [hshape, if_false]
      have hsame : shapeFacts dayOf query shape before = shapeFacts dayOf query shape after :=
        h.filter_neg fun hboth => hshape hboth.2.symm
      rw [← hsame]
      exact hbuckets shape
  · rw [if_neg hin] at hadd
    obtain rfl := Option.some.inj hadd
    have hsame : shapeFacts dayOf query shape before = shapeFacts dayOf query shape after :=
      h.filter_neg fun hboth => hin hboth.1
    rw [← hsame]
    exact hbuckets shape

theorem Covers.apply {result : Cache} {stored : Buckets} (h : Covers dayOf cache buckets before)
    (hshift : Shift fact sign before after)
    (happly : apply dayOf cache buckets fact sign = some (result, stored)) :
    Covers dayOf result stored after := by
  obtain ⟨unattributed, self, hunattributed, hself, hstored, rfl⟩ := apply_some happly
  refine ⟨hshift.addWhen h.self hself, ?_, ?_, ?_⟩
  · have hguarded : Represents unattributed
        (after.filter fun fact => (fun fact : UsageFact => fact.at.isNone) fact = true) :=
      hshift.addWhen h.unattributed hunattributed
    exact hguarded
  · by_cases ham : isAmbiguous fact = true
    · have hfiltered : Shift fact sign (before.filter fun fact => isAmbiguous fact = true)
          (after.filter fun fact => isAmbiguous fact = true) := hshift.filter_pos ham
      simp only [if_pos ham]
      rw [hfiltered.card, h.ambiguous]
    · have hfiltered : (before.filter fun fact => isAmbiguous fact = true) =
          after.filter fun fact => isAmbiguous fact = true := hshift.filter_neg ham
      simp only [if_neg ham]
      rw [← hfiltered, h.ambiguous]
  · exact hshift.addBucketWhen h.buckets hstored

/-- The totals a cache over the facts would need are within the bounds. -/
def FitsCache (query : UsageQuery) (facts : Multiset UsageFact) : Prop :=
  Fits (facts.filter fun fact => inQuery query fact = true) ∧
    Fits (facts.filter fun fact => fact.at.isNone = true)

theorem Covers.fits (h : Covers dayOf cache buckets facts) : FitsCache cache.query facts :=
  ⟨h.self.fits, h.unattributed.fits⟩

theorem FitsCache.mono {query : UsageQuery} {fewer : Multiset UsageFact} (h : FitsCache query facts)
    (hle : fewer ≤ facts) : FitsCache query fewer :=
  ⟨h.1.mono (Multiset.filter_le_filter _ hle), h.2.mono (Multiset.filter_le_filter _ hle)⟩

theorem guarded_cons {guard : UsageFact → Bool} (facts : Multiset UsageFact)
    (h : guard fact = true) : (fact ::ₘ facts).filter (fun fact => guard fact = true) =
      fact ::ₘ facts.filter fun fact => guard fact = true :=
  Multiset.filter_cons_of_pos _ h

theorem addWhen_exists {agg : UsageAggregate} {guard : UsageFact → Bool}
    (h : Represents agg (facts.filter fun fact => guard fact = true))
    (hfits : Fits ((fact ::ₘ facts).filter fun fact => guard fact = true)) :
    ∃ result, addWhen (guard fact) agg fact 1 = some result := by
  unfold addWhen
  by_cases hguard : guard fact = true
  · rw [guarded_cons facts hguard] at hfits
    rw [if_pos hguard]
    exact h.add_exists hfits
  · rw [if_neg hguard]
    exact ⟨agg, rfl⟩

/-- Within the bounds a contribution is added without a throw. -/
theorem Covers.apply_exists (h : Covers dayOf cache buckets facts)
    (hfits : FitsCache cache.query (fact ::ₘ facts)) :
    ∃ result stored, Aggregate.apply dayOf cache buckets fact 1 = some (result, stored) := by
  obtain ⟨self, hself⟩ := addWhen_exists h.self hfits.1
  obtain ⟨unattributed, hunattributed⟩ : ∃ result,
      addWhen ((fun fact : UsageFact => fact.at.isNone) fact) cache.unattributed fact 1 =
        some result := addWhen_exists h.unattributed hfits.2
  have hstored : ∃ stored, addBucketWhen (inQuery cache.query fact) buckets
      (usageBucket dayOf fact cache.query.timezone) fact 1 = some stored := by
    unfold addBucketWhen
    by_cases hin : inQuery cache.query fact = true
    · rw [if_pos hin]
      have hold := (h.buckets (usageBucket dayOf fact cache.query.timezone)).represents
      have hbound : Fits (fact ::ₘ shapeFacts dayOf cache.query
          (usageBucket dayOf fact cache.query.timezone) facts) := by
        apply hfits.1.mono
        rw [guarded_cons facts hin]
        exact Multiset.cons_le_cons _ (Multiset.monotone_filter_right _ fun _ hboth => hboth.1)
      obtain ⟨bucket, hbucket⟩ := hold.add_exists hbound
      exact ⟨_, by rw [addBucket, hbucket]; rfl⟩
    · rw [if_neg hin]
      exact ⟨buckets, rfl⟩
  obtain ⟨stored, hstored⟩ := hstored
  refine ⟨?_, stored, ?_⟩
  · exact { cache with
      ambiguousCount := if isAmbiguous fact then cache.ambiguousCount + 1 else cache.ambiguousCount
      unattributed, self }
  · simp only [Aggregate.apply, hunattributed, hself, hstored, Option.bind_eq_bind,
      Option.bind_some]

variable (dayOf)

/-- The cache of a query computed from scratch over contributions in order. -/
def recompute (query : UsageQuery) (facts : List UsageFact) : Option (Cache × Buckets) :=
  facts.foldlM (fun held fact => Aggregate.apply dayOf held.1 held.2 fact 1)
    (Cache.empty query, fun _ => none)

variable {dayOf}

theorem Covers.foldlM {covered : Multiset UsageFact} {facts : List UsageFact}
    (h : Covers dayOf cache buckets covered)
    (hfits : FitsCache cache.query (covered + facts)) :
    ∃ result stored,
      facts.foldlM (fun held fact => Aggregate.apply dayOf held.1 held.2 fact 1)
        (cache, buckets) = some (result, stored) ∧
      result.query = cache.query ∧ Covers dayOf result stored (covered + facts) := by
  induction facts generalizing cache buckets covered with
  | nil => exact ⟨cache, buckets, rfl, rfl, by simpa using h⟩
  | cons fact rest ih =>
    have hsplit : covered + ((fact :: rest : List UsageFact) : Multiset UsageFact) =
        fact ::ₘ covered + (rest : Multiset UsageFact) := by
      rw [← Multiset.cons_coe, Multiset.add_cons, Multiset.cons_add]
    rw [hsplit] at hfits
    have hfirst : FitsCache cache.query (fact ::ₘ covered) :=
      hfits.mono (Multiset.le_add_right _ _)
    obtain ⟨next, held, happly⟩ := h.apply_exists hfirst
    have hquery := (apply_frame happly).1
    have hnext : Covers dayOf next held (fact ::ₘ covered) := h.apply (.more covered) happly
    rw [← hquery] at hfits
    obtain ⟨result, stored, hfold, hsame, hcovers⟩ := ih hnext hfits
    refine ⟨result, stored, ?_, hsame.trans hquery, ?_⟩
    · simp only [List.foldlM_cons, happly]
      exact hfold
    · rw [hsplit]
      exact hcovers

/-- Two caches of a query with the same totals in each part. -/
structure SameCache (a b : Cache) (bucketsA bucketsB : Buckets) : Prop where
  self : SameTotals a.self b.self
  unattributed : SameTotals a.unattributed b.unattributed
  ambiguous : a.ambiguousCount = b.ambiguousCount
  buckets : ∀ shape, Option.Rel SameTotals (bucketsA shape) (bucketsB shape)

theorem BucketOf.same {a b : Option UsageAggregate} (ha : BucketOf a facts) (hb : BucketOf b facts)
    : Option.Rel SameTotals a b := by
  rcases ha with ⟨rfl, hempty⟩ | ⟨x, rfl, hfacts, hx⟩
  · rcases hb with ⟨rfl, _⟩ | ⟨y, rfl, hfacts, _⟩
    · exact Option.Rel.none
    · exact absurd hempty hfacts
  · rcases hb with ⟨rfl, hempty⟩ | ⟨y, rfl, _, hy⟩
    · exact absurd hempty hfacts
    · exact Option.Rel.some (hx.same hy)

theorem Covers.recompute {facts : List UsageFact} (h : Covers dayOf cache buckets facts) :
    ∃ fresh stored, Aggregate.recompute dayOf cache.query facts = some (fresh, stored) ∧
      SameCache cache fresh buckets stored := by
  have hfits : FitsCache (Cache.empty cache.query).query (0 + (facts : Multiset UsageFact)) := by
    rw [zero_add]
    exact h.fits
  have hstart : Covers dayOf (Cache.empty cache.query) (fun _ => none) 0 := Covers.empty cache.query
  obtain ⟨fresh, stored, hfold, hquery, hfresh⟩ := hstart.foldlM hfits
  have hsame : fresh.query = cache.query := hquery
  rw [zero_add] at hfresh
  refine ⟨fresh, stored, hfold, ?_⟩
  obtain ⟨hself, hunattributed, hambiguous, hbuckets⟩ := hfresh
  rw [hsame] at hself hbuckets
  exact ⟨h.self.same hself, h.unattributed.same hunattributed, h.ambiguous.trans hambiguous.symm,
    fun shape => (h.buckets shape).same (hbuckets shape)⟩

end

end Ccmux.Usage.Aggregate
