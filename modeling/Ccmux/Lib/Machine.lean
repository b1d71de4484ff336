/- Module: Ccmux/Lib/Machine
   digest: Runs of a partial step function, and the two rules that carry facts along a run. -/

import Mathlib

namespace Ccmux.Lib.Machine

universe u v

variable {σ : Type u} {ε : Type v}

/-- Feed the events to the machine in order; an event the machine refuses ends the run. -/
@[grind =]
def run (step : σ → ε → Option σ) : σ → List ε → Option σ
  | s, [] => some s
  | s, e :: es => (step s e).bind fun t => run step t es

@[simp] theorem run_nil (step : σ → ε → Option σ) (s : σ) : run step s [] = some s := rfl

variable {step : σ → ε → Option σ} {s t m : σ} {es : List ε} {P : σ → Prop} {C : σ → ε → Prop}

theorem run_cons {e : ε} :
    run step s (e :: es) = some t ↔ ∃ m, step s e = some m ∧ run step m es = some t := by
  simp only [run, Option.bind_eq_some_iff]

theorem run_append {fs : List ε} (hfirst : run step s es = some m)
    (hsecond : run step m fs = some t) :
    run step s (es ++ fs) = some t := by
  induction es generalizing s with
  | nil =>
    obtain rfl := Option.some.inj hfirst
    exact hsecond
  | cons e es ih =>
    obtain ⟨n, hn, hrest⟩ := run_cons.mp hfirst
    exact run_cons.mpr ⟨n, hn, ih hrest⟩

theorem run_invariant (keeps : ∀ s e t, P s → step s e = some t → P t)
    {s t : σ} {es : List ε} (hrun : run step s es = some t) (hs : P s) : P t := by
  induction es generalizing s with
  | nil => simpa using (Option.some.inj hrun) ▸ hs
  | cons e es ih =>
    obtain ⟨m, hm, ht⟩ := run_cons.mp hrun
    exact ih ht (keeps s e m hs hm)

theorem run_relation {R : σ → σ → Prop} (refl : ∀ s, R s s)
    (trans : ∀ s m t, R s m → R m t → R s t) (single : ∀ s e t, step s e = some t → R s t)
    {s t : σ} {es : List ε} (hrun : run step s es = some t) : R s t := by
  induction es generalizing s with
  | nil => exact (Option.some.inj hrun) ▸ refl s
  | cons e es ih =>
    obtain ⟨m, hm, ht⟩ := run_cons.mp hrun
    exact trans s m t (single s e m hm) (ih ht)

theorem nodup_grow {α : Type u} {history : List α} {entry : α} (h : history.Nodup)
    (hnew : entry ∉ history) : (history ++ [entry]).Nodup := by
  refine List.nodup_append.mpr ⟨h, List.nodup_singleton _, ?_⟩
  intro a ha b hb hab
  obtain rfl := List.mem_singleton.mp hb
  exact hnew (hab ▸ ha)

/-- The condition holds at every step the run takes. -/
@[grind =]
def Along (step : σ → ε → Option σ) (C : σ → ε → Prop) : σ → List ε → Prop
  | _, [] => True
  | s, e :: es => C s e ∧ ∀ t, step s e = some t → Along step C t es

theorem along_of_forall (h : ∀ e ∈ es, ∀ s, C s e) (s : σ) : Along step C s es := by
  induction es generalizing s with
  | nil => trivial
  | cons e es ih =>
    refine ⟨h e List.mem_cons_self s, fun t _ => ih ?_ t⟩
    intro f hf
    exact h f (List.mem_cons_of_mem e hf)

theorem along_and {D : σ → ε → Prop} (hC : Along step C s es) (hD : Along step D s es) :
    Along step (fun s e => C s e ∧ D s e) s es := by
  induction es generalizing s with
  | nil => trivial
  | cons e es ih => exact ⟨⟨hC.1, hD.1⟩, fun t ht => ih (hC.2 t ht) (hD.2 t ht)⟩

/-- The condition, checked at every step the run takes. -/
@[grind =]
def check (step : σ → ε → Option σ) (C : σ → ε → Bool) : σ → List ε → Bool
  | _, [] => true
  | s, e :: es => C s e && (step s e).all fun t => check step C t es

theorem along_of_check {C : σ → ε → Bool} (h : check step C s es = true) :
    Along step (fun s e => C s e = true) s es := by
  induction es generalizing s with
  | nil => trivial
  | cons e es ih =>
    simp only [check, Bool.and_eq_true] at h
    refine ⟨h.1, ?_⟩
    intro t ht
    have hrest := h.2
    rw [ht] at hrest
    exact ih hrest

theorem run_invariant_along (keeps : ∀ s e t, P s → C s e → step s e = some t → P t)
    {s t : σ} {es : List ε} (hrun : run step s es = some t) (hall : Along step C s es)
    (hs : P s) : P t := by
  induction es generalizing s with
  | nil => simpa using (Option.some.inj hrun) ▸ hs
  | cons e es ih =>
    obtain ⟨m, hm, ht⟩ := run_cons.mp hrun
    exact ih ht (hall.2 m hm) (keeps s e m hs hall.1 hm)

theorem along_of_invariant {D : σ → ε → Prop}
    (keeps : ∀ s e t, P s → C s e → step s e = some t → P t) (does : ∀ s e, P s → C s e → D s e)
    {s : σ} {es : List ε} (hall : Along step C s es) (hs : P s) : Along step D s es := by
  induction es generalizing s with
  | nil => trivial
  | cons e es ih =>
    refine ⟨does s e hs hall.1, ?_⟩
    intro t ht
    exact ih (hall.2 t ht) (keeps s e t hs hall.1 ht)

theorem run_iff_along {I : σ → Prop} (keeps : ∀ s e t, I s → step s e = some t → I t)
    (exact_ : ∀ s e t, I s → step s e = some t → (P t ↔ P s ∧ C s e))
    {s t : σ} {es : List ε} (hrun : run step s es = some t) (hs : I s) :
    P t ↔ P s ∧ Along step C s es := by
  induction es generalizing s with
  | nil =>
    obtain rfl := Option.some.inj hrun
    simp [Along]
  | cons e es ih =>
    obtain ⟨m, hm, ht⟩ := run_cons.mp hrun
    have hrest := ih ht (keeps s e m hs hm)
    rw [hrest, exact_ s e m hs hm, and_assoc]
    refine and_congr_right fun _ => and_congr_right fun _ => ?_
    constructor
    · intro hall t' ht'
      rw [hm] at ht'
      obtain rfl := Option.some.inj ht'
      exact hall
    · intro hall
      exact hall m hm

/-- A state the run passes through, its ends included. -/
def Reached (step : σ → ε → Option σ) (s : σ) (es : List ε) (t : σ) : Prop :=
  ∃ pre post, es = pre ++ post ∧ run step s pre = some t

theorem reached_start (s : σ) (es : List ε) : Reached step s es s :=
  ⟨[], es, rfl, rfl⟩

theorem reached_end (hrun : run step s es = some t) : Reached step s es t :=
  ⟨es, [], (List.append_nil es).symm, hrun⟩

theorem reached_cons {e : ε} (hm : step s e = some m) (t : σ) :
    Reached step s (e :: es) t ↔ t = s ∨ Reached step m es t := by
  constructor
  · rintro ⟨pre, post, hsplit, hpre⟩
    cases pre with
    | nil => exact .inl (Option.some.inj hpre).symm
    | cons f pre =>
      obtain ⟨rfl, hes⟩ := List.cons.inj hsplit
      obtain ⟨m', hm', ht⟩ := run_cons.mp hpre
      obtain rfl := Option.some.inj (hm.symm.trans hm')
      exact .inr ⟨pre, post, hes, ht⟩
  · rintro (rfl | ⟨pre, post, hes, hpre⟩)
    · exact reached_start t _
    · exact ⟨e :: pre, post, by rw [hes]; rfl, run_cons.mpr ⟨m, hm, hpre⟩⟩

/-- Where the invariant gives the property, and a step that breaks the condition breaks the
property, a run meets the condition exactly when it has the property in every state it reaches. -/
theorem along_iff_reached {I Q : σ → Prop} (keeps : ∀ s e t, I s → C s e → step s e = some t → I t)
    (good : ∀ s, I s → Q s)
    (bad : ∀ s e t, I s → ¬ C s e → step s e = some t → ¬ Q t)
    {s t : σ} {es : List ε} (hrun : run step s es = some t) (hs : I s) :
    Along step C s es ↔ ∀ u, Reached step s es u → Q u := by
  induction es generalizing s with
  | nil =>
    refine iff_of_true trivial ?_
    rintro u ⟨pre, post, hnil, hpre⟩
    obtain ⟨rfl, -⟩ := List.append_eq_nil_iff.mp hnil.symm
    obtain rfl := Option.some.inj hpre
    exact good s hs
  | cons e es ih =>
    obtain ⟨m, hm, ht⟩ := run_cons.mp hrun
    simp only [reached_cons hm]
    constructor
    · rintro ⟨hC, hrest⟩ u (rfl | hu)
      · exact good u hs
      · exact (ih ht (keeps s e m hs hC hm)).mp (hrest m hm) u hu
    · intro hall
      have hC : C s e := by
        by_contra hC
        exact bad s e m hs hC hm (hall m (.inr (reached_start m es)))
      refine ⟨hC, ?_⟩
      intro m' hm'
      obtain rfl := Option.some.inj (hm.symm.trans hm')
      exact (ih ht (keeps s e m hs hC hm)).mpr fun u hu => hall u (.inr hu)

theorem run_rest {pre post : List ε} (hrun : run step s (pre ++ post) = some t)
    (hpre : run step s pre = some m) :
    run step m post = some t := by
  induction pre generalizing s with
  | nil =>
    obtain rfl := Option.some.inj hpre
    exact hrun
  | cons e es ih =>
    obtain ⟨n, hn, hes⟩ := run_cons.mp hpre
    obtain ⟨n', hn', hrest⟩ := run_cons.mp hrun
    obtain rfl := Option.some.inj (hn.symm.trans hn')
    exact ih hrest hes

theorem Along.pre {pre post : List ε} (h : Along step C s (pre ++ post)) : Along step C s pre := by
  induction pre generalizing s with
  | nil => trivial
  | cons e es ih => exact ⟨h.1, fun t ht => ih (h.2 t ht)⟩

theorem reached_invariant_along (keeps : ∀ s e t, P s → C s e → step s e = some t → P t)
    {s t : σ} {es : List ε} (hreached : Reached step s es t) (hall : Along step C s es)
    (hs : P s) : P t := by
  obtain ⟨pre, post, rfl, hpre⟩ := hreached
  exact run_invariant_along keeps hpre hall.pre hs

end Ccmux.Lib.Machine
