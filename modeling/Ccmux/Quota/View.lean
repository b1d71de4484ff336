/- Module: Ccmux/Quota/View
   source: src/quota/view.ts
   digest: The freshest of several measurements of one account, and what its windows are filled
     from. -/

import Ccmux.Runtime.PlanLimits
import Mathlib

namespace Ccmux.Quota

/-- `SOURCE_RANK` -/
def sourceRank : Source → Nat
  | .native => 0
  | .statusline => 1
  | .probe => 2

/-- The order of the sort: newer first, and at one time the more direct source. -/
def Before (a b : PlanLimits) : Prop :=
  b.observedAt < a.observedAt ∨
    a.observedAt = b.observedAt ∧ sourceRank a.source ≤ sourceRank b.source

instance : DecidableRel Before := fun _ _ => inferInstanceAs (Decidable (_ ∨ _))

/-- The measurements that say something; where none does, all of them. -/
def poolOf (candidates : List (Option PlanLimits)) : List PlanLimits :=
  let present := candidates.filterMap id
  let known := present.filter fun c => c.answer = .known
  if 0 < known.length then known else present

/-- A window is carried over unless one under its key is there, or it has ended by then. -/
def carry (at_ : Int) (windows : List PlanWindow) (window : PlanWindow) : List PlanWindow :=
  if (windows.any fun w => w.key = window.key) || planWindowExpired window at_ then windows
  else windows ++ [window]

def fillWindows (at_ : Int) : List PlanWindow → List PlanLimits → List PlanWindow
  | windows, [] => windows
  | windows, other :: rest =>
    if planLimitsStaleAfterMs other.source < at_ - other.observedAt then
      fillWindows at_ windows rest
    else fillWindows at_ (other.windows.foldl (carry at_) windows) rest

/-- Sorted stably, as `sort` does. -/
def freshestLimits (candidates : List (Option PlanLimits)) : Option PlanLimits :=
  match (poolOf candidates).insertionSort Before with
  | [] => none
  | best :: rest =>
    if best.answer ≠ .known then some best
    else
      let windows := fillWindows best.observedAt best.windows rest
      if windows.length = best.windows.length then some best
      else
        some { best with windows := windows.take maxWindows, bounded := List.length_take_le _ _ }

/-- A measurement that may fill the window: close enough to the newest one, and its own window of
that key has not ended. -/
def Fills (best other : PlanLimits) (key : String) (window : PlanWindow) : Prop :=
  best.observedAt - other.observedAt ≤ planLimitsStaleAfterMs other.source ∧
    window ∈ other.windows ∧ window.key = key ∧
      planWindowExpired window best.observedAt = false

/-- The answer is the newest measurement that says something, with all of its windows; any other
window is one that it lacks, from the newest measurement that may fill it. -/
structure Freshest (pool : List PlanLimits) (best answer : PlanLimits) : Prop where
  mem : best ∈ pool
  newest : ∀ other ∈ pool, Before best other
  same : answer = { best with windows := answer.windows, bounded := answer.bounded }
  kept : best.windows <+: answer.windows
  filled : ∀ window ∈ answer.windows, window ∈ best.windows ∨
    (∀ own ∈ best.windows, own.key ≠ window.key) ∧
      ∃ other ∈ pool, Fills best other window.key window ∧
        ∀ rival ∈ pool, ∀ w, Fills best rival window.key w → Before other rival

/-- No two different measurements of the pool carry one time and one source. -/
def Untied (pool : List PlanLimits) : Prop :=
  ∀ a ∈ pool, ∀ b ∈ pool, a.observedAt = b.observedAt → a.source = b.source → a = b

instance (pool : List PlanLimits) : Decidable (Untied pool) :=
  inferInstanceAs (Decidable (∀ a ∈ pool, ∀ b ∈ pool, _ → _ → _))

theorem before_total (a b : PlanLimits) : Before a b ∨ Before b a := by
  unfold Before
  omega

variable {a b : PlanLimits}

theorem before_trans {c : PlanLimits} (h : Before a b) (h' : Before b c) : Before a c := by
  unfold Before at *
  omega

instance : Std.Total Before := ⟨before_total⟩

instance : IsTrans PlanLimits Before := ⟨fun _ _ _ => before_trans⟩

theorem eq_of_rank {a b : Source} (h : sourceRank a = sourceRank b) : a = b := by
  cases a <;> cases b <;> first | rfl | cases h

theorem tie_of_before (h : Before a b) (h' : Before b a) :
    a.observedAt = b.observedAt ∧ a.source = b.source := by
  unfold Before at h h'
  have htime : a.observedAt = b.observedAt := by omega
  exact ⟨htime, eq_of_rank (by omega)⟩

section
variable {candidates other : List (Option PlanLimits)} {best : PlanLimits} {rest : List PlanLimits}
variable {at_ : Int} {windows : List PlanWindow}

theorem poolOf_perm (h : other.Perm candidates) : (poolOf other).Perm (poolOf candidates) := by
  have hpresent := h.filterMap id
  have hknown := hpresent.filter fun c => decide (c.answer = .known)
  unfold poolOf
  dsimp only
  rw [hknown.length_eq]
  split
  · exact hknown
  · exact hpresent

theorem sorted_unique (huntied : Untied (poolOf candidates)) (h : other.Perm candidates) :
    (poolOf other).insertionSort Before = (poolOf candidates).insertionSort Before := by
  have hpool := poolOf_perm h
  refine List.Perm.eq_of_pairwise ?_ (List.pairwise_insertionSort Before _)
    (List.pairwise_insertionSort Before _)
    ((List.perm_insertionSort Before _).trans
      (hpool.trans (List.perm_insertionSort Before _).symm))
  intro a b ha hb hab hba
  obtain ⟨htime, hsource⟩ := tie_of_before hab hba
  rw [List.mem_insertionSort] at ha hb
  exact huntied a (hpool.mem_iff.mp ha) b hb htime hsource

/-- What one measurement adds, window by window. -/
theorem carry_spec (ws : List PlanWindow) :
    ∃ added, ws.foldl (carry at_) windows = windows ++ added ∧
      (∀ w ∈ added, w ∈ ws ∧ planWindowExpired w at_ = false ∧
        ∀ own ∈ windows, own.key ≠ w.key) ∧
      ∀ w ∈ ws, planWindowExpired w at_ = false → ∃ own ∈ windows ++ added, own.key = w.key := by
  induction ws generalizing windows with
  | nil => exact ⟨[], (List.append_nil _).symm, by simp, by simp⟩
  | cons first ws ih =>
    rw [List.foldl_cons]
    by_cases hskip : ((windows.any fun w => w.key = first.key) ||
        planWindowExpired first at_) = true
    · obtain ⟨added, hfold, hadded, hcovered⟩ := @ih windows
      have hcarry : carry at_ windows first = windows := if_pos hskip
      rw [hcarry]
      refine ⟨added, hfold, ?_, ?_⟩
      · intro w hw
        obtain ⟨hmember, hrest⟩ := hadded w hw
        exact ⟨List.mem_cons_of_mem first hmember, hrest⟩
      · intro w hw hopen
        rcases List.mem_cons.mp hw with rfl | hlater
        · rw [hopen, Bool.or_false, List.any_eq_true] at hskip
          obtain ⟨own, hown, hkey⟩ := hskip
          exact ⟨own, List.mem_append_left _ hown, of_decide_eq_true hkey⟩
        · exact hcovered w hlater hopen
    · obtain ⟨added, hfold, hadded, hcovered⟩ := @ih (windows ++ [first])
      have hcarry : carry at_ windows first = windows ++ [first] := if_neg hskip
      rw [hcarry]
      simp only [Bool.or_eq_true, not_or, Bool.not_eq_true, List.any_eq_false,
        decide_eq_true_eq] at hskip
      refine ⟨first :: added, ?_, ?_, ?_⟩
      · rw [hfold, List.append_assoc]
        rfl
      · intro w hw
        rcases List.mem_cons.mp hw with rfl | hlater
        · exact ⟨List.mem_cons_self, hskip.2, hskip.1⟩
        · obtain ⟨hmember, hopen, hkeys⟩ := hadded w hlater
          exact ⟨List.mem_cons_of_mem first hmember, hopen,
            fun own hown => hkeys own (List.mem_append_left _ hown)⟩
      · intro w hw hopen
        rcases List.mem_cons.mp hw with rfl | hlater
        · exact ⟨w, by simp, rfl⟩
        · obtain ⟨own, hown, hkey⟩ := hcovered w hlater hopen
          exact ⟨own, by simpa using hown, hkey⟩

theorem before_refl (a : PlanLimits) : Before a a := .inr ⟨rfl, Nat.le_refl _⟩

/-- Each window that is filled in comes from the first measurement in order that may fill it. -/
theorem fill_spec (hsorted : rest.Pairwise Before) :
    ∃ added, fillWindows best.observedAt windows rest = windows ++ added ∧
      ∀ w ∈ added, (∀ own ∈ windows, own.key ≠ w.key) ∧
        ∃ other ∈ rest, Fills best other w.key w ∧
          ∀ rival ∈ rest, ∀ v, Fills best rival w.key v → Before other rival := by
  induction rest generalizing windows with
  | nil => exact ⟨[], (List.append_nil _).symm, by simp⟩
  | cons first rest ih =>
    obtain ⟨hfirst, hrest⟩ := List.pairwise_cons.mp hsorted
    rw [fillWindows]
    by_cases hstale : planLimitsStaleAfterMs first.source < best.observedAt - first.observedAt
    · rw [if_pos hstale]
      obtain ⟨added, hfill, hadded⟩ := @ih windows hrest
      refine ⟨added, hfill, ?_⟩
      intro w hw
      obtain ⟨hkeys, other, hother, hfills, hnewest⟩ := hadded w hw
      refine ⟨hkeys, other, List.mem_cons_of_mem first hother, hfills, ?_⟩
      intro rival hrival v hv
      rcases List.mem_cons.mp hrival with rfl | hlater
      · have hnear := hv.1
        omega
      · exact hnewest rival hlater v hv
    · rw [if_neg hstale]
      obtain ⟨carried, hcarry, hcarried, hcovered⟩ :=
        @carry_spec best.observedAt windows first.windows
      obtain ⟨added, hfill, hadded⟩ := @ih (windows ++ carried) hrest
      rw [hcarry]
      refine ⟨carried ++ added, by rw [hfill, List.append_assoc], ?_⟩
      intro w hw
      rcases List.mem_append.mp hw with hnow | hlater
      · obtain ⟨hmember, hopen, hkeys⟩ := hcarried w hnow
        refine ⟨hkeys, first, List.mem_cons_self, ⟨by omega, hmember, rfl, hopen⟩, ?_⟩
        intro rival hrival v _
        rcases List.mem_cons.mp hrival with rfl | hafter
        · exact before_refl rival
        · exact hfirst rival hafter
      · obtain ⟨hkeys, other, hother, hfills, hnewest⟩ := hadded w hlater
        refine ⟨fun own hown => hkeys own (List.mem_append_left _ hown), other,
          List.mem_cons_of_mem first hother, hfills, ?_⟩
        intro rival hrival v hv
        rcases List.mem_cons.mp hrival with rfl | hafter
        · -- What the first one may fill is there already.
          obtain ⟨-, hmember, hkey, hopen⟩ := hv
          obtain ⟨own, hown, hsame⟩ := hcovered v hmember hopen
          exact absurd (hsame.trans hkey) (hkeys own hown)
        · exact hnewest rival hafter v hv

/-- The answer, whichever measurement the sort puts first. -/
theorem freshest_of_sorted {answer : PlanLimits}
    (hanswer : freshestLimits candidates = some answer) :
    ∃ best rest, (poolOf candidates).insertionSort Before = best :: rest ∧
      Freshest (poolOf candidates) best answer := by
  have hmem : ∀ c, c ∈ (poolOf candidates).insertionSort Before ↔ c ∈ poolOf candidates :=
    fun c => List.mem_insertionSort Before
  have hpairwise := List.pairwise_insertionSort Before (poolOf candidates)
  unfold freshestLimits at hanswer
  cases hsort : (poolOf candidates).insertionSort Before with
  | nil =>
    rw [hsort] at hanswer
    cases hanswer
  | cons best rest =>
    rw [hsort] at hanswer hpairwise hmem
    obtain ⟨hbest, hrest⟩ := List.pairwise_cons.mp hpairwise
    have hnewest : ∀ other ∈ poolOf candidates, Before best other := by
      intro other hother
      rcases List.mem_cons.mp ((hmem other).mpr hother) with rfl | hlater
      · exact before_refl other
      · exact hbest other hlater
    have hin : best ∈ poolOf candidates := (hmem best).mp List.mem_cons_self
    have halone : Freshest (poolOf candidates) best best :=
      ⟨hin, hnewest, rfl, List.prefix_rfl, fun window hwindow => .inl hwindow⟩
    refine ⟨best, rest, rfl, ?_⟩
    dsimp only at hanswer
    split at hanswer
    · obtain rfl := Option.some.inj hanswer
      exact halone
    · split at hanswer
      · obtain rfl := Option.some.inj hanswer
        exact halone
      · obtain rfl := Option.some.inj hanswer
        obtain ⟨added, hfill, hadded⟩ := @fill_spec best rest best.windows hrest
        refine ⟨hin, hnewest, rfl, ?_, ?_⟩
        · dsimp only
          rw [hfill, List.take_append, List.take_of_length_le best.bounded]
          exact List.prefix_append _ _
        · intro window hwindow
          dsimp only at hwindow
          rw [hfill] at hwindow
          rcases List.mem_append.mp (List.mem_of_mem_take hwindow) with hown | hnew
          · exact .inl hown
          · obtain ⟨hkeys, other, hother, hfills, hfirst⟩ := hadded window hnew
            have hpool := (hmem other).mp (List.mem_cons_of_mem best hother)
            refine .inr ⟨hkeys, other, hpool, hfills, ?_⟩
            intro rival hrival v hv
            rcases List.mem_cons.mp ((hmem rival).mpr hrival) with rfl | hlater
            · obtain ⟨-, hmember, hkey, -⟩ := hv
              exact absurd hkey (hkeys v hmember)
            · exact hfirst rival hlater v hv

theorem poolOf_eq_nil : poolOf candidates = [] ↔ ∀ c ∈ candidates, c = none := by
  unfold poolOf
  dsimp only
  constructor
  · intro h c hc
    split at h
    · rename_i hsome
      rw [h] at hsome
      exact absurd hsome (Nat.lt_irrefl 0)
    · cases c with
      | none => rfl
      | some limits =>
        have hmember : limits ∈ candidates.filterMap id := List.mem_filterMap.mpr ⟨_, hc, rfl⟩
        rw [h] at hmember
        cases hmember
  · intro h
    have hnone : candidates.filterMap id = [] := by
      rw [List.filterMap_eq_nil_iff]
      intro c hc
      rw [h c hc]
      rfl
    rw [hnone]
    rfl

theorem freshestLimits_eq_none : freshestLimits candidates = none ↔ ∀ c ∈ candidates, c = none := by
  rw [← poolOf_eq_nil]
  constructor
  · intro h
    unfold freshestLimits at h
    split at h
    · rename_i hsort
      have hlength := List.length_insertionSort Before (poolOf candidates)
      rw [hsort] at hlength
      exact List.eq_nil_of_length_eq_zero hlength.symm
    · dsimp only at h
      split at h
      · cases h
      · split at h <;> cases h
  · intro h
    unfold freshestLimits
    rw [h]
    rfl

theorem mem_poolOf_known {known best : PlanLimits} (hmem : some known ∈ candidates)
    (hknown : known.answer = .known) (hbest : best ∈ poolOf candidates) : best.answer = .known := by
  have hpresent : known ∈ (candidates.filterMap id).filter fun c => c.answer = .known :=
    List.mem_filter.mpr ⟨List.mem_filterMap.mpr ⟨_, hmem, rfl⟩, by simpa using hknown⟩
  unfold poolOf at hbest
  dsimp only at hbest
  rw [if_pos (List.length_pos_of_mem hpresent)] at hbest
  simpa using (List.mem_filter.mp hbest).2

variable {top : PlanLimits}

theorem poolOf_cons (hmem : top ∈ poolOf candidates)
    (hperm : (some top :: other).Perm candidates) :
    ∃ rest, poolOf (some top :: other) = top :: rest := by
  have hpresent : (some top :: other).filterMap id = top :: other.filterMap id := rfl
  unfold poolOf
  dsimp only
  rw [hpresent]
  by_cases hknown : top.answer = .known
  · rw [List.filter_cons_of_pos (by simpa using hknown), if_pos (by simp)]
    exact ⟨_, rfl⟩
  · have hnone : ¬ 0 < ((top :: other.filterMap id).filter fun c => c.answer = .known).length := by
      intro hsome
      obtain ⟨c, hc⟩ := List.exists_mem_of_length_pos hsome
      obtain ⟨hc, hanswer⟩ := List.mem_filter.mp hc
      rw [← hpresent] at hc
      obtain ⟨candidate, hcandidate, rfl⟩ := List.mem_filterMap.mp hc
      have hin := hperm.mem_iff.mp hcandidate
      exact hknown (mem_poolOf_known hin (of_decide_eq_true hanswer) hmem)
    rw [if_neg hnone]
    exact ⟨_, rfl⟩

theorem exists_first {top : PlanLimits} (hmem : top ∈ poolOf candidates)
    (hnewest : ∀ c ∈ poolOf candidates, Before top c) :
    ∃ other, other.Perm candidates ∧
      ∃ rest, (poolOf other).insertionSort Before = top :: rest := by
  have hcandidate : some top ∈ candidates := by
    have hin : top ∈ candidates.filterMap id := by
      unfold poolOf at hmem
      dsimp only at hmem
      split at hmem
      · exact (List.mem_filter.mp hmem).1
      · exact hmem
    obtain ⟨candidate, hcandidate, hsome⟩ := List.mem_filterMap.mp hin
    obtain rfl : candidate = some top := hsome
    exact hcandidate
  have hperm := (List.perm_cons_erase hcandidate).symm
  obtain ⟨rest, hpool⟩ := poolOf_cons hmem hperm
  refine ⟨some top :: candidates.erase (some top), hperm, rest.insertionSort Before, ?_⟩
  rw [hpool]
  refine List.insertionSort_cons_of_forall_rel Before ?_
  intro c hc
  have hall := (poolOf_perm hperm).mem_iff (a := c)
  rw [hpool] at hall
  exact hnewest c (hall.mp (List.mem_cons_of_mem top hc))

theorem freshest_of_first (hsort : (poolOf candidates).insertionSort Before = top :: rest) :
    ∃ answer, freshestLimits candidates = some answer ∧
      Freshest (poolOf candidates) top answer := by
  cases hanswer : freshestLimits candidates with
  | none =>
    have hnil := poolOf_eq_nil.mpr (freshestLimits_eq_none.mp hanswer)
    rw [hnil] at hsort
    cases hsort
  | some answer =>
    obtain ⟨best, later, hfirst, hfreshest⟩ := freshest_of_sorted hanswer
    rw [hsort] at hfirst
    obtain ⟨rfl, -⟩ := List.cons.inj hfirst
    exact ⟨answer, rfl, hfreshest⟩

/-- Of two different measurements with as many windows that both come first, the list decides. -/
theorem tie_decides {x y : PlanLimits} (hx : x ∈ poolOf candidates) (hy : y ∈ poolOf candidates)
    (htopx : ∀ c ∈ poolOf candidates, Before x c) (htopy : ∀ c ∈ poolOf candidates, Before y c)
    (hdiffer : x ≠ y) (hcount : x.windows.length = y.windows.length) :
    ∃ other, other.Perm candidates ∧ freshestLimits other ≠ freshestLimits candidates := by
  obtain ⟨first, hfirst, _, hsortx⟩ := exists_first hx htopx
  obtain ⟨second, hsecond, _, hsorty⟩ := exists_first hy htopy
  obtain ⟨a, ha, hfresha⟩ := freshest_of_first hsortx
  obtain ⟨c, hc, hfreshc⟩ := freshest_of_first hsorty
  by_contra hnone
  have hagree : ∀ other, other.Perm candidates →
      freshestLimits other = freshestLimits candidates := by
    intro other hother
    by_contra hother'
    exact hnone ⟨other, hother, hother'⟩
  have hac : a = c := by
    have hsame := (hagree first hfirst).trans (hagree second hsecond).symm
    rw [ha, hc] at hsame
    exact Option.some.inj hsame
  subst hac
  have hwindows : x.windows = y.windows := by
    rw [List.prefix_iff_eq_take.mp hfresha.kept, List.prefix_iff_eq_take.mp hfreshc.kept, hcount]
  have hxa := hfresha.same
  have hya := hfreshc.same
  rw [hxa] at hya
  injection hya with hanswer hplan _ htime hsource herror
  exact hdiffer (PlanLimits.ext hanswer hplan hwindows htime hsource herror)

end

/-- What the limits are, for every list of measurements: the freshest one, windows filled by rule,
an absence never in its place, and one answer for every order of the list where no two different
measurements tie; of two that tie at the front, the order decides. And what a pushed window
becomes. -/
theorem limits_by_rule (candidates : List (Option PlanLimits)) :
    (freshestLimits candidates = none ↔ ∀ c ∈ candidates, c = none) ∧
    (∀ answer, freshestLimits candidates = some answer →
      (∃ best, Freshest (poolOf candidates) best answer) ∧
        ∀ known, some known ∈ candidates → known.answer = .known → answer.answer = .known) ∧
    (Untied (poolOf candidates) →
      ∀ other, other.Perm candidates → freshestLimits other = freshestLimits candidates) ∧
    (∀ x ∈ poolOf candidates, ∀ y ∈ poolOf candidates, (∀ c ∈ poolOf candidates, Before x c) →
      (∀ c ∈ poolOf candidates, Before y c) → x ≠ y → x.windows.length = y.windows.length →
        ∃ other, other.Perm candidates ∧ freshestLimits other ≠ freshestLimits candidates) ∧
    ∀ (slice : String → Nat → String) (current : Option PlanLimits) (info : RateLimitInfo)
      (now : Int) (window : PlanWindow), pushedWindow slice info = some window →
        ∃ merged, mergeRateLimitEvent slice current info now = some merged ∧
          merged.windows.length ≤ maxWindows ∧
          (window ∈ merged.windows ↔ (otherWindows current window).length < maxWindows) := by
  refine ⟨freshestLimits_eq_none, ?_, ?_, ?_, ?_⟩
  · intro answer hanswer
    obtain ⟨best, _, _, hfreshest⟩ := freshest_of_sorted hanswer
    refine ⟨⟨best, hfreshest⟩, ?_⟩
    intro known hmember hknown
    have hsame : answer.answer = best.answer := by rw [hfreshest.same]
    rw [hsame]
    exact mem_poolOf_known hmember hknown hfreshest.mem
  · intro huntied other hother
    unfold freshestLimits
    rw [sorted_unique huntied hother]
  · intro x hx y hy htopx htopy hdiffer hcount
    exact tie_decides hx hy htopx htopy hdiffer hcount
  · intro slice current info now window hpushed
    obtain ⟨merged, hmerged, hwindows⟩ := mergeRateLimitEvent_windows hpushed
    refine ⟨merged, hmerged, merged.bounded, ?_⟩
    rw [hwindows]
    exact pushed_mem_iff

def windowOf (key : String) (percent : Nat) : PlanWindow :=
  { key, label := none, percent, windowMinutes := none, resetsAt := none, scope := none }

/-- A measurement of the five-hour window. -/
def fiveHours (percent : Nat) (observedAt : Int) (source : Source) : PlanLimits :=
  { answer := .known, plan := none, windows := [windowOf "five_hour" percent], observedAt, source,
    error := none, bounded := Nat.le_of_ble_eq_true rfl }

/-- A newer probe and an older answer of the runtime: the order of the list does not matter. -/
theorem limits_by_rule_twoSources :
    freshestLimits
        [some (fiveHours 80 60000 .native), none, some (fiveHours 120 90000 .probe)] =
      freshestLimits
        [some (fiveHours 120 90000 .probe), some (fiveHours 80 60000 .native), none] := by
  have hrule := limits_by_rule
    [some (fiveHours 120 90000 .probe), some (fiveHours 80 60000 .native), none]
  exact hrule.2.2.1 (by decide) _ (by decide)

/-- A measurement with as many windows as one may carry. -/
def fullLimits : PlanLimits :=
  { answer := .known, plan := none,
    windows := (List.range 32).map fun n => windowOf ("model_scoped:" ++ toString n) 10,
    observedAt := 60000, source := .native, error := none, bounded := by decide }

/-- Two runtimes measure one account at one moment: the list's order decides. And the window that
the server pushes onto a full measurement is the one that is cut. -/
theorem tie_and_full_measurement :
    freshestLimits [some (fiveHours 80 60000 .native), some (fiveHours 120 60000 .native)] ≠
      freshestLimits [some (fiveHours 120 60000 .native), some (fiveHours 80 60000 .native)] ∧
    pushedWindow (fun key _ => key) ⟨some "five_hour", ⟨some 1000, none, none⟩⟩ =
      some (windowOf "five_hour" 1000) ∧
    ∃ merged, mergeRateLimitEvent (fun key _ => key) (some fullLimits)
        ⟨some "five_hour", ⟨some 1000, none, none⟩⟩ 90000 = some merged ∧
      windowOf "five_hour" 1000 ∉ merged.windows := by
  refine ⟨by decide, rfl, _, rfl, ?_⟩
  decide

end Ccmux.Quota
