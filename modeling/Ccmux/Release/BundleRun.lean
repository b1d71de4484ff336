/- Module: Ccmux/Release/BundleRun
   source: src/release/update.ts, src/util/bootGuard.ts
   digest: The live bundle is always whole; the backup is the predecessor where no install is cut off. -/

import Ccmux.Release.Bundle
import Ccmux.Lib.Machine

namespace Ccmux.Release

open Ccmux.Lib.Machine

variable {Bundle Digest : Type}

/-- The live path holds a bundle that was installed there, from the first install on. -/
def LiveHolds (w : World Bundle Digest) : Prop :=
  (∀ bundle, w.files.live = some bundle → bundle ∈ w.installed) ∧
    (w.installed ≠ [] → w.files.live.isSome = true)

/-- With a backup after a swap, a rollback puts back exactly what that swap replaced. -/
def Restores (b : Builtins Bundle Digest) (w : World Bundle Digest) : Prop :=
  ∀ predecessor, w.replaced = some predecessor → w.files.backup.isSome = true →
    restoreBackup b w.files = some (true, { w.files with live := some predecessor })

/-- Whether a step keeps the backup the predecessor's. An install finds the bundle that it read
still live when it copies and when it replaces it; one that is cut off after its copy replaces the
bundle that the last swap replaced, with no digest of another bundle recorded. -/
def keeps [DecidableEq Bundle] [DecidableEq Digest] (b : Builtins Bundle Digest)
    (w : World Bundle Digest) : Event Bundle → Bool
  | .operation =>
    match w.job with
    | some (.copying _ current) => w.files.live = some current
    | some (.replacing _ (some backed)) => w.files.live = some backed
    | some (.swapping _ (some _)) => w.files.live = w.files.backup
    | _ => true
  | .stop =>
    match w.job with
    | some (.recording _ current) => w.replaced.all fun predecessor =>
        predecessor = current ∧ w.files.digest.all (· = b.sha256Of current)
    | some (.replacing _ backed) => w.replaced.all fun predecessor => backed = some predecessor
    | some (.swapping _ _) => w.replaced.all fun predecessor =>
        w.files.backup = some predecessor ∧ w.files.digest.all (· = b.sha256Of predecessor)
    | some (.noting backupSha256) => w.files.digest.all (· = backupSha256)
    | _ => true
  | _ => true

/-- Everything that can be put live was installed. -/
structure Known (w : World Bundle Digest) : Prop where
  live : ∀ bundle, w.files.live = some bundle → bundle ∈ w.installed
  backup : ∀ bundle, w.files.backup = some bundle → bundle ∈ w.installed
  reverting : ∀ bundle, w.reverting = some bundle → bundle ∈ w.installed
  replaced : ∀ bundle, w.replaced = some bundle → bundle ∈ w.installed
  present : w.installed ≠ [] → w.files.live.isSome = true

/-- The backup is the predecessor, and its digest is recorded if one is. -/
def Fits (b : Builtins Bundle Digest) (files : Files Bundle Digest) (replaced : Option Bundle) :
    Prop :=
  ∀ predecessor, replaced = some predecessor → files.backup = some predecessor ∧
    ∀ digest, files.digest = some digest → digest = b.sha256Of predecessor

/-- What holds while an install stands before its next operation. -/
@[grind =]
def Stands (b : Builtins Bundle Digest) (w : World Bundle Digest) : Prop :=
  match w.job with
  | none | some (.copying _ _) | some (.applying _) => Fits b w.files w.replaced
  | some (.recording _ current) => w.files.backup = some current
  | some (.replacing _ none) => w.files.live = none
  | some (.replacing _ (some backed)) =>
    w.files.backup = some backed ∧ w.files.digest = some (b.sha256Of backed)
  | some (.swapping _ none) => w.files.live = none
  | some (.swapping _ (some digest)) =>
    ∃ backed, w.files.backup = some backed ∧ digest = b.sha256Of backed
  | some (.noting digest) =>
    ∃ backed, w.replaced = some backed ∧ w.files.backup = some backed ∧
      digest = b.sha256Of backed

section
variable {b : Builtins Bundle Digest} {w v : World Bundle Digest} {bundle : Bundle}
variable {e : Event Bundle}

theorem Known.swapped (h : Known w) {candidate : Bundle} {files : Files Bundle Digest}
    {job : Option (Job Bundle Digest)} (hlive : files.live = some candidate)
    (hbackup : files.backup = w.files.backup) : Known (w.swapped candidate files job) where
  live := by
    intro bundle hbundle
    obtain rfl := Option.some.inj (hlive.symm.trans hbundle)
    exact List.mem_append_right _ (List.mem_singleton_self _)
  backup bundle hbundle := List.mem_append_left _ (h.backup bundle (hbackup ▸ hbundle))
  reverting bundle hbundle := List.mem_append_left _ (h.reverting bundle hbundle)
  replaced bundle hbundle := List.mem_append_left _ (h.live bundle hbundle)
  present _ := by
    change files.live.isSome = true
    rw [hlive]
    rfl

theorem Known.backed (h : Known w) {files : Files Bundle Digest} {job : Option (Job Bundle Digest)}
    (hlive : files.live = w.files.live)
    (hbackup : ∀ bundle, files.backup = some bundle → bundle ∈ w.installed) :
    Known { w with files, job } where
  live bundle hbundle := h.live bundle (hlive ▸ hbundle)
  backup := hbackup
  reverting := h.reverting
  replaced := h.replaced
  present hsome := by
    change files.live.isSome = true
    rw [hlive]
    exact h.present hsome

theorem Known.restored (h : Known w) {reverting : Option Bundle}
    (hbundle : bundle ∈ w.installed) (hreverting : ∀ other, reverting = some other →
      other ∈ w.installed) :
    Known { w with files := { w.files with live := some bundle }, reverting } where
  live := by
    intro other hother
    obtain rfl := Option.some.inj hother
    exact hbundle
  backup := h.backup
  reverting := hreverting
  replaced := h.replaced
  present _ := rfl

theorem Known.job (h : Known w) {job : Option (Job Bundle Digest)} : Known { w with job } :=
  h.backed rfl h.backup

theorem backUp_live_eq (hb : Documented b) (files : Files Bundle Digest) :
    (b.backUp files).1 = { files with backup := files.live.or files.backup } ∧
      (b.backUp files).2 = files.live.map b.sha256Of := by
  cases hlive : files.live with
  | none =>
    rw [hb.backUp_none files hlive]
    exact ⟨by rw [Option.none_or, ← hlive], rfl⟩
  | some bundle =>
    rw [hb.backUp_live files bundle hlive]
    exact ⟨by rw [Option.some_or, ← hlive], rfl⟩

theorem known_operation (hb : Documented b) (h : Known w) {job : Job Bundle Digest} :
    Known (operation b w job) := by
  cases job with
  | copying source current =>
    simp only [operation]
    split
    · exact h.job
    · rename_i now hnow
      refine h.backed rfl ?_
      intro bundle hbundle
      obtain rfl := Option.some.inj hbundle
      exact h.live _ hnow
  | recording source current => exact h.backed rfl h.backup
  | replacing source backed => exact h.swapped rfl rfl
  | applying candidate =>
    obtain ⟨hfiles, _⟩ := backUp_live_eq hb w.files
    refine h.backed (by rw [hfiles]) ?_
    intro bundle hbundle
    rw [hfiles] at hbundle
    rcases Option.or_eq_some_iff.mp hbundle with hlive | ⟨_, hbackup⟩
    · exact h.live bundle hlive
    · exact h.backup bundle hbackup
  | swapping candidate digest =>
    simp only [operation]
    rw [hb.swap_live]
    exact h.swapped rfl rfl
  | noting digest => exact h.backed rfl h.backup

theorem restoreBackup_live (hb : Documented b) {files after : Files Bundle Digest} {found : Bool}
    (h : restoreBackup b files = some (found, after)) :
    after = files ∨ ∃ bak, files.backup = some bak ∧ after = { files with live := some bak } := by
  unfold restoreBackup at h
  split at h
  · cases h
    exact .inl rfl
  · rename_i bak hbak
    refine .inr ⟨bak, hbak, ?_⟩
    split at h
    · cases h
      rfl
    · rename_i digest hdigest
      obtain ⟨restored, hrestored, hafter⟩ := Option.map_eq_some_iff.mp h
      by_cases hmatch : b.sha256Of bak = digest
      · rw [← hmatch, hb.rollback_exact files bak hbak] at hrestored
        cases hrestored
        cases hafter
        rfl
      · rw [hb.rollback_refuses files bak digest hbak hmatch] at hrestored
        cases hrestored

theorem fits_unreplaced {files : Files Bundle Digest} : Fits b files none := by
  intro predecessor hpredecessor
  cases hpredecessor

theorem stands_live (hs : Stands b w) {live : Option Bundle} {reverting : Option Bundle}
    (hpresent : w.files.live.isSome = true) :
    Stands b { w with files := { w.files with live }, reverting } := by
  unfold Stands at hs ⊢
  dsimp only
  split <;> rename_i hjob <;> rw [hjob] at hs
  all_goals first
    | exact hs
    | (have hnone : w.files.live = none := hs
       rw [hnone] at hpresent
       cases hpresent)

theorem restores_of_fits (hb : Documented b) (h : Fits b w.files w.replaced) : Restores b w := by
  intro predecessor hreplaced _
  obtain ⟨hbackup, hdigest⟩ := h predecessor hreplaced
  cases hrecorded : w.files.digest with
  | none => simp only [restoreBackup, hbackup, hrecorded]
  | some digest =>
    have hexact := hb.rollback_exact w.files predecessor hbackup
    rw [← hdigest digest hrecorded] at hexact
    simp only [restoreBackup, hbackup, hrecorded, hexact, Option.map_some]

theorem known_start {live : Option Bundle} : Known (World.start live : World Bundle Digest) where
  live bundle hbundle := by simpa [World.start] using hbundle
  backup bundle hbundle := by cases hbundle
  reverting bundle hbundle := by cases hbundle
  replaced bundle hbundle := by cases hbundle
  present hsome := by
    cases live with
    | none => exact absurd rfl hsome
    | some bundle => rfl

section
variable [DecidableEq Bundle] [DecidableEq Digest]

theorem known_step (hb : Documented b) (h : Known w) (hstep : step b w e = some v) : Known v := by
  cases e with
  | replaceBundle source =>
    simp only [step] at hstep
    split at hstep
    · rw [← Option.some.inj hstep]
      unfold replaceBundle
      split
      · exact h.job
      · split
        · exact h
        · exact h.job
    · cases hstep
  | downloadVerifyApply candidate =>
    simp only [step] at hstep
    split at hstep
    · rw [← Option.some.inj hstep]
      unfold downloadVerifyApply
      split
      · exact h
      · exact h.job
    · cases hstep
  | operation =>
    obtain ⟨job, _, rfl⟩ := Option.map_eq_some_iff.mp hstep
    exact known_operation hb h
  | stop =>
    obtain ⟨job, _, rfl⟩ := Option.map_eq_some_iff.mp hstep
    exact h.job
  | restoreBackup =>
    simp only [step] at hstep
    split at hstep
    · rw [← Option.some.inj hstep]
      cases hrestore : restoreBackup b w.files with
      | none => exact h
      | some result =>
        obtain ⟨found, after⟩ := result
        rcases restoreBackup_live hb hrestore with hsame | ⟨bak, hbak, hafter⟩
        · rw [hsame]
          exact h
        · rw [hafter]
          exact h.restored (h.backup bak hbak) h.reverting
    · cases hstep
  | guardReads =>
    obtain ⟨bak, hbak, rfl⟩ := Option.map_eq_some_iff.mp hstep
    refine ⟨h.live, h.backup, ?_, h.replaced, h.present⟩
    intro bundle hbundle
    obtain rfl := Option.some.inj hbundle
    exact h.backup _ hbak
  | guardWrites =>
    obtain ⟨bak, hbak, rfl⟩ := Option.map_eq_some_iff.mp hstep
    refine h.restored (h.reverting bak hbak) ?_
    intro other hother
    cases hother
  | guardStops =>
    obtain rfl := Option.some.inj hstep
    refine ⟨h.live, h.backup, ?_, h.replaced, h.present⟩
    intro bundle hbundle
    cases hbundle

/-- Each operation leaves what the next one rests on. -/
theorem stands_operation (hb : Documented b) {job : Job Bundle Digest}
    (hjob : w.job = some job) (hs : Stands b w) (hkeeps : keeps b w .operation = true) :
    Stands b (operation b w job) := by
  unfold Stands at hs
  simp only [keeps, hjob] at hkeeps
  rw [hjob] at hs
  cases job with
  | copying source current =>
    rw [decide_eq_true_eq] at hkeeps
    simp only [operation, hkeeps, Stands]
  | recording source current => exact ⟨hs, rfl⟩
  | replacing source backed =>
    cases backed with
    | none =>
      have hnone : w.files.live = none := hs
      simp only [operation, World.swapped, hnone, Stands]
      exact fits_unreplaced
    | some backed =>
      rw [decide_eq_true_eq] at hkeeps
      simp only [operation, World.swapped, hkeeps, Stands]
      intro predecessor hpredecessor
      obtain rfl := Option.some.inj hpredecessor
      refine ⟨hs.1, fun digest hdigest => ?_⟩
      exact Option.some.inj (hdigest.symm.trans hs.2)
  | applying candidate =>
    obtain ⟨hfiles, hdigest⟩ := backUp_live_eq hb w.files
    simp only [operation, hfiles, hdigest, Stands]
    cases hlive : w.files.live with
    | none => rfl
    | some bundle => exact ⟨bundle, rfl, rfl⟩
  | swapping candidate digest =>
    simp only [operation, World.swapped]
    rw [hb.swap_live]
    cases digest with
    | none =>
      have hnone : w.files.live = none := hs
      rw [hnone]
      exact fits_unreplaced
    | some digest =>
      rw [decide_eq_true_eq] at hkeeps
      obtain ⟨backed, hbacked, hdigest⟩ := hs
      exact ⟨backed, hkeeps.trans hbacked, hbacked, hdigest⟩
  | noting digest =>
    obtain ⟨backed, hreplaced, hbacked, hdigest⟩ := hs
    simp only [operation, Stands]
    intro predecessor hpredecessor
    obtain rfl := Option.some.inj (hreplaced.symm.trans hpredecessor)
    refine ⟨hbacked, fun other hother => ?_⟩
    exact (Option.some.inj hother).symm.trans hdigest

theorem digest_of_all {digest : Option Digest} {own : Digest}
    (h : digest.all (· = own) = true) : ∀ other, digest = some other → other = own := by
  rintro other rfl
  simpa using h

theorem stands_stop {job : Job Bundle Digest} (hjob : w.job = some job)
    (hs : Stands b w) (hkeeps : keeps b w .stop = true) : Fits b w.files w.replaced := by
  unfold Stands at hs
  simp only [keeps, hjob] at hkeeps
  rw [hjob] at hs
  cases hreplaced : w.replaced with
  | none => exact fits_unreplaced
  | some last =>
    rw [hreplaced] at hkeeps hs
    intro predecessor hpredecessor
    obtain rfl := Option.some.inj hpredecessor
    cases job with
    | copying source current => exact hs last rfl
    | applying candidate => exact hs last rfl
    | recording source current =>
      simp only [Option.all_some, decide_eq_true_eq] at hkeeps
      obtain ⟨rfl, hdigest⟩ := hkeeps
      exact ⟨hs, digest_of_all hdigest⟩
    | replacing source backed =>
      simp only [Option.all_some, decide_eq_true_eq] at hkeeps
      subst hkeeps
      refine ⟨hs.1, fun digest hdigest => ?_⟩
      exact Option.some.inj (hdigest.symm.trans hs.2)
    | swapping candidate digest =>
      simp only [Option.all_some, decide_eq_true_eq] at hkeeps
      exact ⟨hkeeps.1, digest_of_all hkeeps.2⟩
    | noting digest =>
      obtain ⟨backed, hsame, hbacked, hdigest⟩ := hs
      obtain rfl := Option.some.inj hsame
      exact ⟨hbacked, fun other hother => (digest_of_all hkeeps other hother).trans hdigest⟩

theorem stands_step (hb : Documented b) (h : Known w) (hs : Stands b w)
    (hkeeps : keeps b w e = true) (hstep : step b w e = some v) : Stands b v := by
  cases e with
  | replaceBundle source =>
    simp only [step] at hstep
    split at hstep
    · rename_i hfree
      rw [Option.isNone_iff_eq_none] at hfree
      unfold Stands at hs
      rw [hfree] at hs
      rw [← Option.some.inj hstep]
      unfold replaceBundle
      split
      · rename_i hlive
        exact hlive
      · split
        · simpa only [Stands, hfree] using hs
        · exact hs
    · cases hstep
  | downloadVerifyApply candidate =>
    simp only [step] at hstep
    split at hstep
    · rename_i hfree
      rw [Option.isNone_iff_eq_none] at hfree
      unfold Stands at hs
      rw [hfree] at hs
      rw [← Option.some.inj hstep]
      unfold downloadVerifyApply
      split
      · simpa only [Stands, hfree] using hs
      · exact hs
    · cases hstep
  | operation =>
    obtain ⟨job, hjob, rfl⟩ := Option.map_eq_some_iff.mp hstep
    exact stands_operation hb hjob hs hkeeps
  | stop =>
    obtain ⟨job, hjob, rfl⟩ := Option.map_eq_some_iff.mp hstep
    have hfits : Fits b w.files w.replaced := stands_stop hjob hs hkeeps
    exact hfits
  | restoreBackup =>
    simp only [step] at hstep
    split at hstep
    · rw [← Option.some.inj hstep]
      cases hrestore : restoreBackup b w.files with
      | none => exact hs
      | some result =>
        obtain ⟨found, after⟩ := result
        rcases restoreBackup_live hb hrestore with hsame | ⟨bak, hbak, hafter⟩
        · rw [hsame]
          exact hs
        · rw [hafter]
          refine stands_live hs (h.present ?_)
          exact List.ne_nil_of_mem (h.backup bak hbak)
    · cases hstep
  | guardReads =>
    obtain ⟨bak, hbak, rfl⟩ := Option.map_eq_some_iff.mp hstep
    exact hs
  | guardWrites =>
    obtain ⟨bak, hbak, rfl⟩ := Option.map_eq_some_iff.mp hstep
    refine stands_live hs (h.present ?_)
    exact List.ne_nil_of_mem (h.reverting bak hbak)
  | guardStops =>
    obtain rfl := Option.some.inj hstep
    exact hs

/-- In every run of installs, rollbacks and reverts with any of them cut off at any point, the live
bundle is whole and was installed; and where every step keeps the backup, a rollback restores what
the last completed swap replaced. -/
theorem rollback_restores_predecessor (hb : Documented b)
    {live : Option Bundle} {es : List (Event Bundle)} {w : World Bundle Digest}
    (hrun : run (step b) (World.start live) es = some w) :
    LiveHolds w ∧
      (Along (step b) (fun u e => keeps b u e = true) (World.start live) es →
        w.job = none → Restores b w) := by
  have hknown : Known w := run_invariant (fun _ _ _ h ht => known_step hb h ht) hrun known_start
  refine ⟨⟨hknown.live, hknown.present⟩, fun halong hfree => ?_⟩
  have hstart : Stands b (World.start live) := fits_unreplaced
  have hboth : Known w ∧ Stands b w :=
    run_invariant_along (P := fun u => Known u ∧ Stands b u) (fun u e t h hkeeps ht =>
      ⟨known_step hb h.1 ht, stands_step hb h.1 h.2 hkeeps ht⟩) hrun halong ⟨known_start, hstart⟩
  have hs := hboth.2
  unfold Stands at hs
  rw [hfree] at hs
  exact restores_of_fits hb hs

end

end

/-- Bundles that are numbers and their own digests. -/
def exampleBuiltins : Builtins Nat Nat where
  sha256Of := id
  backUp files := ({ files with backup := files.live.or files.backup }, files.live)
  swap files candidate := { files with live := some candidate }
  rollbackCliUpdate files digest :=
    (files.backup.filter (· = digest)).map fun bak => { files with live := some bak }

theorem exampleBuiltins_documented : Documented exampleBuiltins where
  backUp_live files bundle hlive := by simp [exampleBuiltins, hlive]
  backUp_none files hlive := by
    cases files
    simp_all [exampleBuiltins]
  swap_live files candidate := rfl
  rollback_exact files bundle hbackup := by simp [exampleBuiltins, hbackup]
  rollback_refuses files bundle digest hbackup hother := by
    have hne : bundle ≠ digest := hother
    simp [exampleBuiltins, hbackup, hne]

/-- Two installs, a download that is refused as a repeat, a rollback, and a third install. -/
def wholeUpdates : List (Event Nat) :=
  [.replaceBundle 2, .operation, .operation, .operation,
   .downloadVerifyApply 3, .operation, .operation, .operation,
   .downloadVerifyApply 3, .restoreBackup, .replaceBundle 4, .operation, .stop,
   .replaceBundle 5, .operation, .operation, .operation]

theorem rollback_restores_predecessor_wholeUpdates :
    ∃ w, run (step exampleBuiltins) (World.start (some 1)) wholeUpdates = some w ∧
      w.files.live = some 5 ∧ w.replaced = some 2 ∧ LiveHolds w ∧ Restores exampleBuiltins w := by
  have hruns : ((run (step exampleBuiltins) (World.start (some 1)) wholeUpdates).any fun w =>
      decide (w.files.live = some 5 ∧ w.replaced = some 2 ∧ w.job = none)) = true := by
    decide
  obtain ⟨w, hrun, hw⟩ := (Option.any_eq_true _ _).mp hruns
  obtain ⟨hlive, hreplaced, hfree⟩ := of_decide_eq_true hw
  obtain ⟨hholds, hrestores⟩ := rollback_restores_predecessor exampleBuiltins_documented hrun
  refine ⟨w, hrun, hlive, hreplaced, hholds, hrestores ?_ hfree⟩
  exact along_of_check (C := keeps exampleBuiltins) (by decide)

/-- The second install is cut off after its backup copy. -/
def cutAfterCopy : List (Event Nat) :=
  [.replaceBundle 2, .operation, .operation, .operation, .replaceBundle 3, .operation, .stop]

/-- The boot guard reverts between the reading of the live bundle and its copy. -/
def revertedInstall : List (Event Nat) :=
  [.replaceBundle 2, .operation, .operation, .operation, .guardReads, .replaceBundle 3,
   .guardWrites, .operation, .operation, .operation]

/-- The rollback after a completed swap refuses the backup: its digest is of another bundle. -/
theorem rollback_refuses_backup :
    (∃ w, run (step exampleBuiltins) (World.start (some 1)) cutAfterCopy = some w ∧
      w.job = none ∧ w.replaced = some 1 ∧ w.files.backup = some 2 ∧
      restoreBackup exampleBuiltins w.files = none ∧ ¬ Restores exampleBuiltins w) ∧
    ∃ w, run (step exampleBuiltins) (World.start (some 1)) revertedInstall = some w ∧
      w.job = none ∧ w.replaced = some 1 ∧ w.files.backup = some 1 ∧
      restoreBackup exampleBuiltins w.files = none ∧ ¬ Restores exampleBuiltins w := by
  have hbroken : ∀ w : World Nat Nat, w.replaced = some 1 → w.files.backup.isSome = true →
      restoreBackup exampleBuiltins w.files = none → ¬ Restores exampleBuiltins w := by
    intro w hreplaced hbackup hnone hrestores
    rw [hrestores 1 hreplaced hbackup] at hnone
    cases hnone
  constructor
  · have hruns : ((run (step exampleBuiltins) (World.start (some 1)) cutAfterCopy).any fun w =>
        decide (w.job = none ∧ w.replaced = some 1 ∧ w.files.backup = some 2 ∧
          restoreBackup exampleBuiltins w.files = none)) = true := by decide
    obtain ⟨w, hrun, hw⟩ := (Option.any_eq_true _ _).mp hruns
    obtain ⟨hfree, hreplaced, hbackup, hnone⟩ := of_decide_eq_true hw
    exact ⟨w, hrun, hfree, hreplaced, hbackup, hnone,
      hbroken w hreplaced (by rw [hbackup]; rfl) hnone⟩
  · have hruns : ((run (step exampleBuiltins) (World.start (some 1)) revertedInstall).any fun w =>
        decide (w.job = none ∧ w.replaced = some 1 ∧ w.files.backup = some 1 ∧
          restoreBackup exampleBuiltins w.files = none)) = true := by decide
    obtain ⟨w, hrun, hw⟩ := (Option.any_eq_true _ _).mp hruns
    obtain ⟨hfree, hreplaced, hbackup, hnone⟩ := of_decide_eq_true hw
    exact ⟨w, hrun, hfree, hreplaced, hbackup, hnone,
      hbroken w hreplaced (by rw [hbackup]; rfl) hnone⟩

end Ccmux.Release
