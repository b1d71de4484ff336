/- Module: Ccmux/Usage/Accumulation
   source: src/usage/accumulation.ts
   digest: One signed fact on an aggregate, and the aggregate as the totals of a multiset of facts. -/

import Mathlib
import Ccmux.Usage.Schema

namespace Ccmux.Usage.Accumulation

open Ccmux.Lib.Tally
open Ccmux.Usage.Schema

/-- `Number.MAX_SAFE_INTEGER`. -/
def maxSafeInteger : Int := 9007199254740991

/-- How many currencies and provenances an aggregate tells apart. -/
def maxCosts : Nat := 32

/-- The bucket a fact belongs to; `dayOf` is the calendar day of an instant in a time zone. -/
def usageBucket (dayOf : String → String → String) (fact : UsageFact) (timezone : String) :
    UsageShape :=
  { day := fact.at.map fun instant => dayOf instant timezone
    model := fact.model
    provider := fact.provider
    inputIncludesCache := fact.inputIncludesCache
    outputIncludesReasoning := fact.outputIncludesReasoning
    provenance := fact.provenance
    details := fact.details }

def UsageCost.key (cost : UsageCost) : CostKey := ⟨cost.currency, cost.provenance⟩

def addCost (costs : List CostRow) (cost : Option UsageCost) (sign : Int) :
    Option (List CostRow) :=
  match cost with
  | none => some costs
  | some cost => post maxCosts costs (UsageCost.key cost) (cost.value : ℚ) sign

/-- `(target.values[field] ?? 0) + sign * value`. -/
def signedSum (target : UsageAggregate) (field : UsageField) (value : Nat) (sign : Int) : Int :=
  (target.values field).getD 0 + sign * value

/-- No field leaves the range of safe integers. -/
def staysSafe (target : UsageAggregate) (fact : UsageFact) (sign : Int) : Bool :=
  usageFields.all fun field => (fact.metrics field).all fun value =>
    decide (0 ≤ signedSum target field value sign ∧
      signedSum target field value sign ≤ maxSafeInteger)

/-- One fact added to the target, or taken from it; `none` is a throw. -/
def addUsage (target : UsageAggregate) (fact : UsageFact) (sign : Int) : Option UsageAggregate :=
  let measured (field : UsageField) : Int :=
    match fact.metrics field with
    | none => target.measured field
    | some _ => target.measured field + sign
  let values (field : UsageField) : Option Int :=
    match fact.metrics field with
    | none => target.values field
    | some value => if measured field = 0 then none else some (signedSum target field value sign)
  if staysSafe target fact sign then
    (addCost target.costs fact.cost sign).map fun costs =>
      { values, observations := target.observations + sign, measured, costs }
  else none

/-- The token counts the facts report for a field. -/
def tokensOf (field : UsageField) (facts : Multiset UsageFact) : Multiset Nat :=
  facts.filterMap fun fact => fact.metrics field

def UsageFact.costItem (fact : UsageFact) : Option (CostKey × ℚ) :=
  fact.cost.map fun cost => (UsageCost.key cost, (cost.value : ℚ))

def costsOf (facts : Multiset UsageFact) : Multiset (CostKey × ℚ) :=
  facts.filterMap UsageFact.costItem

/-- The aggregate holds exactly the totals of the facts. -/
structure Represents (agg : UsageAggregate) (facts : Multiset UsageFact) : Prop where
  observations : agg.observations = facts.card
  measured : ∀ field, agg.measured field = (tokensOf field facts).card
  values : ∀ field, agg.values field =
    if tokensOf field facts = 0 then none else some ((tokensOf field facts).sum : Int)
  safe : ∀ field, ((tokensOf field facts).sum : Int) ≤ maxSafeInteger
  costs : Tallies agg.costs (costsOf facts)
  room : agg.costs.length ≤ maxCosts

/-- The totals of the facts stay within the bounds of an aggregate. -/
structure Fits (facts : Multiset UsageFact) : Prop where
  safe : ∀ field, ((tokensOf field facts).sum : Int) ≤ maxSafeInteger
  room : ((costsOf facts).map Prod.fst).toFinset.card ≤ maxCosts

/-- Two aggregates with the same totals; reported costs come in any order. -/
structure SameTotals (a b : UsageAggregate) : Prop where
  values : a.values = b.values
  observations : a.observations = b.observations
  measured : a.measured = b.measured
  costs : a.costs.Perm b.costs

variable {facts : Multiset UsageFact} {agg result : UsageAggregate} {fact : UsageFact}

theorem Represents.same {a b : UsageAggregate} (ha : Represents a facts) (hb : Represents b facts) :
    SameTotals a b := by
  refine ⟨?_, ?_, ?_, ha.costs.perm hb.costs⟩
  · ext1 field
    rw [ha.values, hb.values]
  · rw [ha.observations, hb.observations]
  · ext1 field
    rw [ha.measured, hb.measured]

theorem Represents.empty : Represents emptyAggregate 0 := by
  refine ⟨rfl, ?_, ?_, ?_, ?_, ?_⟩
  · intro field
    simp [emptyAggregate, tokensOf]
  · intro field
    simp [emptyAggregate, tokensOf]
  · intro field
    simp [tokensOf, maxSafeInteger]
  · simpa [costsOf, emptyAggregate] using Tallies.nil
  · simp [emptyAggregate]

theorem Represents.fits (h : Represents agg facts) : Fits facts := by
  refine ⟨h.safe, ?_⟩
  rw [← h.costs.length]
  exact h.room

theorem Fits.mono {fewer : Multiset UsageFact} (h : Fits facts) (hle : fewer ≤ facts) :
    Fits fewer := by
  constructor
  · intro field
    have htokens : tokensOf field fewer ≤ tokensOf field facts :=
      Multiset.filterMap_le_filterMap _ hle
    obtain ⟨more, hmore⟩ := Multiset.le_iff_exists_add.mp htokens
    have hbound := h.safe field
    rw [hmore, Multiset.sum_add] at hbound
    omega
  · have hkeys : ((costsOf fewer).map Prod.fst).toFinset ⊆ ((costsOf facts).map Prod.fst).toFinset :=
      Multiset.toFinset_subset.mpr (Multiset.subset_of_le
        (Multiset.map_le_map (Multiset.filterMap_le_filterMap _ hle)))
    exact (Finset.card_le_card hkeys).trans h.room

theorem tokensOf_cons (field : UsageField) (fact : UsageFact) (facts : Multiset UsageFact) :
    tokensOf field (fact ::ₘ facts) =
      match fact.metrics field with
      | none => tokensOf field facts
      | some value => value ::ₘ tokensOf field facts := by
  cases h : fact.metrics field with
  | none => exact Multiset.filterMap_cons_none _ _ h
  | some value => exact Multiset.filterMap_cons_some _ _ _ h

theorem costsOf_cons (fact : UsageFact) (facts : Multiset UsageFact) :
    costsOf (fact ::ₘ facts) =
      match fact.cost with
      | none => costsOf facts
      | some cost => (UsageCost.key cost, (cost.value : ℚ)) ::ₘ costsOf facts := by
  cases h : fact.cost with
  | none => exact Multiset.filterMap_cons_none _ _ (by simp [UsageFact.costItem, h])
  | some cost => exact Multiset.filterMap_cons_some _ _ _ (by simp [UsageFact.costItem, h])

theorem costsOf_nonneg (facts : Multiset UsageFact) : ∀ item ∈ costsOf facts, 0 ≤ item.2 := by
  intro item hitem
  obtain ⟨fact, _, hcost⟩ := (Multiset.mem_filterMap _ _).mp hitem
  obtain ⟨cost, _, rfl⟩ := Option.map_eq_some_iff.mp hcost
  exact cost.value.2

/-- What a successful `addUsage` leaves. -/
theorem addUsage_some {target : UsageAggregate} {sign : Int}
    (h : addUsage target fact sign = some result) :
    (∀ field value, fact.metrics field = some value →
      0 ≤ signedSum target field value sign ∧
        signedSum target field value sign ≤ maxSafeInteger) ∧
    addCost target.costs fact.cost sign = some result.costs ∧
    result.observations = target.observations + sign ∧
    (∀ field, fact.metrics field = none → result.measured field = target.measured field ∧
      result.values field = target.values field) ∧
    ∀ field value, fact.metrics field = some value →
      result.measured field = target.measured field + sign ∧
      result.values field = if target.measured field + sign = 0 then none
        else some (signedSum target field value sign) := by
  unfold addUsage at h
  split at h
  · next hsafe =>
    obtain ⟨costs, hcosts, rfl⟩ := Option.map_eq_some_iff.mp h
    refine ⟨?_, hcosts, rfl, ?_, ?_⟩
    · intro field value hvalue
      have hfield := List.all_eq_true.mp hsafe field (mem_usageFields field)
      simpa [hvalue] using hfield
    · intro field hnone
      simp [hnone]
    · intro field value hvalue
      simp [hvalue]
  · cases h

theorem Represents.getD (h : Represents agg facts) (field : UsageField) :
    (agg.values field).getD 0 = ((tokensOf field facts).sum : Int) := by
  rw [h.values]
  split
  · next hnone => simp [hnone]
  · rfl

/-- A fact is added to the totals. -/
theorem Represents.add (h : Represents agg facts)
    (hadd : addUsage agg fact 1 = some result) : Represents result (fact ::ₘ facts) := by
  obtain ⟨hsafe, hcosts, hobservations, hnone, hsome⟩ := addUsage_some hadd
  have htally : Tallies result.costs (costsOf (fact ::ₘ facts)) ∧
      result.costs.length ≤ maxCosts := by
    rw [costsOf_cons]
    cases hcost : fact.cost with
    | none =>
      have hsame : agg.costs = result.costs := by simpa [addCost, hcost] using hcosts
      rw [← hsame]
      exact ⟨h.costs, h.room⟩
    | some cost =>
      rw [hcost] at hcosts
      have hnonneg : ∀ item ∈ (UsageCost.key cost, (cost.value : ℚ)) ::ₘ costsOf facts,
          0 ≤ item.2 := by
        have hall := costsOf_nonneg (fact ::ₘ facts)
        rwa [costsOf_cons, hcost] at hall
      obtain ⟨htallies, hlength⟩ := h.costs.add hnonneg hcosts
      exact ⟨htallies, hlength h.room⟩
  refine ⟨?_, ?_, ?_, ?_, htally.1, htally.2⟩
  · rw [hobservations, h.observations]
    simp
  · intro field
    rw [tokensOf_cons]
    cases hvalue : fact.metrics field with
    | none => rw [(hnone field hvalue).1, h.measured]
    | some value =>
      rw [(hsome field value hvalue).1, h.measured]
      simp
  · intro field
    rw [tokensOf_cons]
    cases hvalue : fact.metrics field with
    | none => rw [(hnone field hvalue).2, h.values]
    | some value =>
      have hcount : agg.measured field + 1 ≠ 0 := by
        rw [h.measured]
        omega
      rw [(hsome field value hvalue).2, if_neg hcount, signedSum, h.getD]
      simp [add_comm]
  · intro field
    rw [tokensOf_cons]
    cases hvalue : fact.metrics field with
    | none => exact h.safe field
    | some value =>
      have hbound := (hsafe field value hvalue).2
      rw [signedSum, h.getD] at hbound
      simp only [Multiset.sum_cons]
      omega

/-- A fact is taken back from the totals. -/
theorem Represents.remove (h : Represents agg (fact ::ₘ facts))
    (hremove : addUsage agg fact (-1) = some result) : Represents result facts := by
  obtain ⟨_, hcosts, hobservations, hnone, hsome⟩ := addUsage_some hremove
  have htally : Tallies result.costs (costsOf facts) ∧ result.costs.length ≤ maxCosts := by
    have hold := h.costs
    rw [costsOf_cons] at hold
    cases hcost : fact.cost with
    | none =>
      have hsame : agg.costs = result.costs := by simpa [addCost, hcost] using hcosts
      rw [← hsame]
      rw [hcost] at hold
      exact ⟨hold, h.room⟩
    | some cost =>
      rw [hcost] at hcosts hold
      obtain ⟨htallies, hlength⟩ := hold.remove (costsOf_nonneg facts) hcosts
      exact ⟨htallies, hlength h.room⟩
  refine ⟨?_, ?_, ?_, ?_, htally.1, htally.2⟩
  · rw [hobservations, h.observations]
    simp
  · intro field
    have hmeasured := h.measured field
    rw [tokensOf_cons] at hmeasured
    cases hvalue : fact.metrics field with
    | none =>
      rw [hvalue] at hmeasured
      rw [(hnone field hvalue).1, hmeasured]
    | some value =>
      rw [hvalue] at hmeasured
      rw [(hsome field value hvalue).1, hmeasured]
      simp
  · intro field
    have hmeasured := h.measured field
    have hvalues := h.values field
    have htotal := h.getD field
    rw [tokensOf_cons] at hmeasured hvalues htotal
    cases hvalue : fact.metrics field with
    | none =>
      rw [hvalue] at hvalues
      rw [(hnone field hvalue).2, hvalues]
    | some value =>
      simp only [hvalue, Multiset.card_cons, Multiset.sum_cons] at hmeasured htotal
      rw [(hsome field value hvalue).2, signedSum, htotal, hmeasured]
      by_cases hempty : tokensOf field facts = 0
      · simp [hempty]
      · have hcard : (tokensOf field facts).card ≠ 0 := mt Multiset.card_eq_zero.mp hempty
        have hcount : ((tokensOf field facts).card + 1 : ℕ) + (-1 : Int) ≠ 0 := by omega
        rw [if_neg hcount, if_neg hempty]
        congr 1
        omega
  · intro field
    have hbound := h.fits.mono (Multiset.le_cons_self facts fact)
    exact hbound.safe field

/-- Adding a fact fails only when the totals would leave the bounds. -/
theorem Represents.add_exists (h : Represents agg facts) (hfits : Fits (fact ::ₘ facts)) :
    ∃ result, addUsage agg fact 1 = some result := by
  have hsafe : staysSafe agg fact 1 = true := by
    apply List.all_eq_true.mpr
    intro field _
    cases hvalue : fact.metrics field with
    | none => rfl
    | some value =>
      have hbound := hfits.safe field
      rw [tokensOf_cons, hvalue] at hbound
      simp only [Multiset.sum_cons] at hbound
      simp only [Option.all_some, decide_eq_true_eq, signedSum, h.getD]
      constructor
      · omega
      · omega
  have hcosts : ∃ costs, addCost agg.costs fact.cost 1 = some costs := by
    cases hcost : fact.cost with
    | none => exact ⟨_, rfl⟩
    | some cost =>
      apply h.costs.post_some
      by_cases hpos : 0 < countOf (UsageCost.key cost) (costsOf facts)
      · exact Or.inl hpos
      · right
        have hroom := hfits.room
        rw [costsOf_cons, hcost] at hroom
        simp only [Multiset.map_cons, Multiset.toFinset_cons] at hroom
        rw [Finset.card_insert_of_notMem, ← h.costs.length] at hroom
        · omega
        · rw [Multiset.mem_toFinset, ← countOf_pos]
          exact hpos
  obtain ⟨costs, hcosts⟩ := hcosts
  unfold addUsage
  rw [if_pos hsafe, hcosts]
  exact ⟨_, rfl⟩

end Ccmux.Usage.Accumulation
