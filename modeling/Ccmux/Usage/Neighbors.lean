/- Module: Ccmux/Usage/Neighbors
   source: src/usage/store.ts (neighbor)
   digest: What a written fact changes for the counters measured against their predecessors. -/

import Ccmux.Usage.Store

namespace Ccmux.Usage.Store

open Ccmux.Usage.Schema
open Ccmux.Usage.Contribution

variable {facts : List UsageFact} {fact : UsageFact} {idx previous : Nat}

theorem previousIdx_lt (h : previousIdx facts fact idx = some previous) : previous < idx := by
  induction idx with
  | zero => cases h
  | succ idx ih =>
    simp only [previousIdx] at h
    split at h
    · have hsame : idx = previous := Option.some.inj h
      omega
    · have hlt := ih h
      omega

theorem previousIdx_congr {other : List UsageFact} (h : ∀ i < idx, facts[i]? = other[i]?) :
    previousIdx facts fact idx = previousIdx other fact idx := by
  induction idx with
  | zero => rfl
  | succ idx ih =>
    have hhere := h idx (by omega)
    have hrest := ih fun i hi => h i (by omega)
    simp only [previousIdx, hhere, hrest]

variable {written : UsageFact} {place later : Nat}

/-- A predecessor that is the written fact neither before nor after stays the same. -/
theorem previousIdx_set (hbefore : previousIdx facts fact idx ≠ some place)
    (hafter : previousIdx (facts.set place written) fact idx ≠ some place) :
    previousIdx (facts.set place written) fact idx = previousIdx facts fact idx := by
  induction idx with
  | zero => rfl
  | succ idx ih =>
    simp only [previousIdx] at hbefore hafter ⊢
    by_cases hplace : idx = place
    · subst hplace
      have hold : ¬ facts[idx]?.any (isNeighbor fact) = true := by
        intro hmatch
        rw [if_pos hmatch] at hbefore
        exact hbefore rfl
      have hnew : ¬ (facts.set idx written)[idx]?.any (isNeighbor fact) = true := by
        intro hmatch
        rw [if_pos hmatch] at hafter
        exact hafter rfl
      rw [if_neg hold, if_neg hnew]
      apply previousIdx_congr
      intro i hi
      rw [List.getElem?_set_ne (by omega)]
    · have hsame : (facts.set place written)[idx]? = facts[idx]? :=
        List.getElem?_set_ne (Ne.symm hplace)
      rw [hsame] at hafter ⊢
      by_cases hmatch : facts[idx]?.any (isNeighbor fact) = true
      · rw [if_pos hmatch, if_pos hmatch]
      · rw [if_neg hmatch] at hbefore hafter ⊢
        rw [if_neg hmatch]
        exact ih hbefore hafter

theorem measuredAgainst_lt (h : measuredAgainst facts idx = some previous) : previous < idx := by
  unfold measuredAgainst at h
  split at h
  · split at h
    · exact previousIdx_lt h
    · cases h
  · cases h

theorem contributionOf_set (hfact : facts[idx]? = some fact)
    (hne : idx ≠ place)
    (hbefore : measuredAgainst facts idx ≠ some place)
    (hafter : measuredAgainst (facts.set place written) idx ≠ some place) :
    contributionOf (facts.set place written) idx fact = contributionOf facts idx fact := by
  have hsame : (facts.set place written)[idx]? = some fact := by
    rw [List.getElem?_set_ne (Ne.symm hne), hfact]
  have hmeasured : measuredAgainst (facts.set place written) idx = measuredAgainst facts idx := by
    simp only [measuredAgainst, hfact, hsame] at hbefore hafter ⊢
    by_cases hmode : fact.mode = .cumulative
    · rw [if_pos hmode] at hbefore hafter ⊢
      rw [if_pos hmode]
      exact previousIdx_set hbefore hafter
    · rw [if_neg hmode, if_neg hmode]
  unfold contributionOf
  rw [hmeasured]
  cases hprevious : measuredAgainst facts idx with
  | none => rfl
  | some previous =>
    have hother : previous ≠ place := by
      intro hplace
      rw [hplace] at hprevious
      exact hbefore hprevious
    simp only [Option.bind_some, List.getElem?_set_ne (Ne.symm hother)]

theorem contributionOf_append {new : UsageFact} (hlt : idx < facts.length) :
    contributionOf (facts ++ [new]) idx fact = contributionOf facts idx fact := by
  have hleft : ∀ i < facts.length, (facts ++ [new])[i]? = facts[i]? := fun i hi =>
    List.getElem?_append_left hi
  have hmeasured : measuredAgainst (facts ++ [new]) idx = measuredAgainst facts idx := by
    unfold measuredAgainst
    rw [hleft idx hlt]
    cases facts[idx]? with
    | none => rfl
    | some here =>
      have hsame : previousIdx (facts ++ [new]) here idx = previousIdx facts here idx :=
        previousIdx_congr fun i hi => hleft i (by omega)
      simp only [hsame]
  unfold contributionOf
  rw [hmeasured]
  cases hprevious : measuredAgainst facts idx with
  | none => rfl
  | some previous =>
    have hbound := measuredAgainst_lt hprevious
    simp only [Option.bind_some, hleft previous (by omega)]

theorem previousIdx_some (h : previousIdx facts fact idx = some previous) :
    facts[previous]?.any (isNeighbor fact) = true ∧
      ∀ mid, previous < mid → mid < idx → ¬ facts[mid]?.any (isNeighbor fact) = true := by
  induction idx with
  | zero => cases h
  | succ idx ih =>
    simp only [previousIdx] at h
    by_cases hmatch : facts[idx]?.any (isNeighbor fact) = true
    · rw [if_pos hmatch] at h
      have hsame : idx = previous := Option.some.inj h
      rw [← hsame]
      exact ⟨hmatch, fun mid _ _ => by omega⟩
    · rw [if_neg hmatch] at h
      obtain ⟨hfound, hbetween⟩ := ih h
      refine ⟨hfound, ?_⟩
      intro mid hafter hbefore
      by_cases hlast : mid = idx
      · rw [hlast]
        exact hmatch
      · exact hbetween mid hafter (by omega)

theorem nextIdx_eq (hlater : idx < later)
    (hmatch : facts[later]?.any (isNeighbor fact) = true)
    (hbetween : ∀ mid, idx < mid → mid < later → ¬ facts[mid]?.any (isNeighbor fact) = true) :
    nextIdx facts fact idx = some later := by
  have hlt : later < facts.length := by
    by_contra hover
    rw [List.getElem?_eq_none (by omega)] at hmatch
    cases hmatch
  unfold nextIdx
  apply List.find?_range_eq_some.mpr
  refine ⟨by simp [hlater, hmatch], List.mem_range.mpr hlt, ?_⟩
  intro mid hmid
  by_cases hafter : idx < mid
  · have hno := hbetween mid hafter hmid
    simp [hno]
  · simp [hafter]

/-- Among facts of one runtime, being measured against a counter and being its next neighbor are
the same. -/
theorem nextIdx_of_measured (hfact : facts[idx]? = some fact)
    (hruntime : ∀ other ∈ facts, other.runtime = fact.runtime)
    (h : measuredAgainst facts later = some idx) :
    fact.mode = .cumulative ∧ nextIdx facts fact idx = some later := by
  have hlt := measuredAgainst_lt h
  unfold measuredAgainst at h
  cases hbody : facts[later]? with
  | none =>
    rw [hbody] at h
    cases h
  | some body =>
    simp only [hbody] at h
    by_cases hmode : body.mode = .cumulative
    · rw [if_pos hmode] at h
      obtain ⟨hfound, hbetween⟩ := previousIdx_some h
      have hsame : body.runtime = fact.runtime := hruntime body (List.mem_of_getElem? hbody)
      rw [hfact, Option.any_some] at hfound
      obtain ⟨hepoch, hcounter, hmodel⟩ := of_decide_eq_true hfound
      refine ⟨hcounter, nextIdx_eq hlt ?_ ?_⟩
      · rw [hbody, Option.any_some]
        apply decide_eq_true
        refine ⟨hepoch.symm, hmode, ?_⟩
        rw [hsame] at hmodel
        rcases hmodel with hother | hmodel
        · exact Or.inl hother
        · exact Or.inr hmodel.symm
      · intro mid hafter hbefore hmatch
        apply hbetween mid hafter hbefore
        cases hmid : facts[mid]? with
        | none =>
          rw [hmid] at hmatch
          cases hmatch
        | some other =>
          rw [hmid, Option.any_some] at hmatch
          rw [Option.any_some]
          obtain ⟨hepoch', hcounter', hmodel'⟩ := of_decide_eq_true hmatch
          apply decide_eq_true
          refine ⟨hepoch'.trans hepoch, hcounter', ?_⟩
          rw [hsame] at hmodel ⊢
          rcases hmodel' with hother | hmodel'
          · exact Or.inl hother
          · rcases hmodel with hother | hmodel
            · exact Or.inl hother
            · exact Or.inr (hmodel'.trans hmodel)
    · rw [if_neg hmode] at h
      cases h

theorem nextIdx_set {old : UsageFact} (hepoch : fact.epoch = old.epoch)
    (hruntime : fact.runtime = old.runtime)
    (hmodel : fact.model = old.model) :
    nextIdx (facts.set idx fact) fact idx = nextIdx facts old idx := by
  have hsame : isNeighbor fact = isNeighbor old := by
    funext other
    simp only [isNeighbor, hepoch, hruntime, hmodel]
  unfold nextIdx
  rw [List.length_set, hsame]
  congr 1
  funext later
  by_cases hlater : idx < later
  · rw [List.getElem?_set_ne (by omega)]
  · simp [hlater]

end Ccmux.Usage.Store
