/- Module: Ccmux/Util/BootGuard
   source: src/util/bootGuard.ts
   digest: The boot-loop guard: which crash loop reverts the bundle, over any history of starts. -/

import Ccmux.Lib.Machine

namespace Ccmux.Util.BootGuard

open Ccmux.Lib.Machine

/-- `MAX_ATTEMPTS` -/
def maxAttempts : Nat := 3

/-- The counter file, the proven record, and the digests of the bundle and its backup. -/
structure Disk (Digest : Type) where
  counter : Option Nat := none
  proven : Option Digest := none
  live : Option Digest
  backup : Option Digest := none
  deriving DecidableEq, Repr

/-- Whether the guard's own writes succeed. -/
structure Io where
  counterWritten : Bool := true
  backupCopied : Bool := true
  deriving DecidableEq, Repr

inductive Outcome where
  | ok | revert
  deriving DecidableEq, Repr

/-- A daemon start: the digest it started from, and whether a pass of it succeeded. -/
structure Start (Digest : Type) where
  digest : Option Digest
  passed : Bool
  deriving DecidableEq, Repr

/-- `running` is the `startedDigest` of a daemon that has had no successful pass yet; `passes` and
`starts` are the whole history, newest first. -/
structure World (Digest : Type) where
  disk : Disk Digest
  running : Option (Option Digest) := none
  passes : List Digest := []
  starts : List (Start Digest) := []
  deriving DecidableEq, Repr

inductive Event (Digest : Type) where
  | start (io : Io)
  | crash
  | pass (recorded : Bool)
  | replace (live backup : Option Digest)
  deriving DecidableEq, Repr

variable {Digest : Type}

def readAttempts (counter : Option Nat) : Nat := counter.getD 0

def clearBootGuard (disk : Disk Digest) : Disk Digest := { disk with counter := none }

/-- `proveBootBundle` of a daemon that started from the digest. -/
def proveBootBundle (disk : Disk Digest) (startedDigest : Option Digest) (recorded : Bool) :
    Disk Digest :=
  let cleared := clearBootGuard disk
  match startedDigest with
  | none => cleared
  | some digest => if recorded then { cleared with proven := some digest } else cleared

/-- The latest starts without a break that were of this bundle and had no successful pass. -/
def failures [DecidableEq Digest] (digest : Option Digest) (starts : List (Start Digest)) : Nat :=
  (starts.takeWhile fun s => s.digest = digest && !s.passed).length

variable [DecidableEq Digest]

def bootGuardStart (disk : Disk Digest) (io : Io) : Disk Digest × Outcome :=
  let attempts := readAttempts disk.counter + 1
  if !io.counterWritten then (disk, .ok)
  else
    let counted := { disk with counter := some attempts }
    if attempts < maxAttempts then (counted, .ok)
    else if disk.live.isSome ∧ disk.live = disk.proven then (clearBootGuard counted, .ok)
    else
      match disk.backup with
      | none => (clearBootGuard counted, .ok)
      | some bak =>
        if io.backupCopied then (clearBootGuard { counted with live := some bak }, .revert)
        else (counted, .ok)

/-- A start ends the daemon before it; a daemon that reverted exits at once. -/
def start (w : World Digest) (io : Io) : World Digest :=
  let started := bootGuardStart w.disk io
  { w with
    disk := started.1
    running := if started.2 = .revert then none else some w.disk.live
    starts := ⟨w.disk.live, false⟩ :: w.starts }

def pass (w : World Digest) (startedDigest : Option Digest) (recorded : Bool) : World Digest :=
  { w with
    disk := proveBootBundle w.disk startedDigest recorded
    running := none
    passes := startedDigest.toList ++ w.passes
    starts := (w.starts.take 1).map (fun s => { s with passed := true }) ++ w.starts.drop 1 }

def step (w : World Digest) : Event Digest → Option (World Digest)
  | .start io => some (start w io)
  | .crash => some { w with running := none }
  | .pass recorded => w.running.map fun startedDigest => pass w startedDigest recorded
  | .replace live backup => some { w with disk := { w.disk with live, backup } }

/-- The bundle has completed a pass here. -/
def hasPassed (w : World Digest) (digest : Option Digest) : Bool :=
  digest.any fun d => w.passes.contains d

/-- Whether a step keeps the counter and the proven record the live bundle's own. The guard's
writes succeed; a bundle that passed before starts again only while no other has passed since; a
loop that trips finds another bundle to go back to; and a bundle is put live only where the counter
shows as many failed starts as the bundle itself has just had. -/
def keeps (w : World Digest) : Event Digest → Bool
  | .start io =>
    io.counterWritten && io.backupCopied &&
      (!hasPassed w w.disk.live || w.passes.head? = w.disk.live) &&
      (hasPassed w w.disk.live || readAttempts w.disk.counter + 1 < maxAttempts ||
        w.disk.backup.isSome && w.disk.backup ≠ w.disk.live)
  | .crash => true
  | .pass recorded => recorded
  | .replace live _ =>
    live = w.disk.live || hasPassed w live ||
      readAttempts w.disk.counter = failures live w.starts

structure Sound (w : World Digest) : Prop where
  proven : w.disk.proven = w.passes.head?
  counted : hasPassed w w.disk.live = false →
    readAttempts w.disk.counter = failures w.disk.live w.starts
  running : ∀ digest, w.running = some digest → w.starts.head? = some ⟨digest, false⟩

section
variable {w v : World Digest} {disk : Disk Digest} {io : Io} {digest : Option Digest}
variable {starts : List (Start Digest)}

theorem failures_own : failures digest (⟨digest, false⟩ :: starts) = failures digest starts + 1 := by
  simp [failures]

theorem failures_other {s : Start Digest} (h : s.digest ≠ digest ∨ s.passed = true) :
    failures digest (s :: starts) = 0 := by
  unfold failures
  rw [List.takeWhile_cons_of_neg, List.length_nil]
  rcases h with h | h <;> simp [h]

theorem bootGuardStart_cases (hio : io.counterWritten = true ∧ io.backupCopied = true) :
    (readAttempts disk.counter + 1 < maxAttempts ∧ bootGuardStart disk io =
      ({ disk with counter := some (readAttempts disk.counter + 1) }, .ok)) ∨
    (¬ readAttempts disk.counter + 1 < maxAttempts ∧ disk.live.isSome = true ∧
      disk.live = disk.proven ∧ bootGuardStart disk io = (clearBootGuard disk, .ok)) ∨
    (¬ readAttempts disk.counter + 1 < maxAttempts ∧
      ¬ (disk.live.isSome = true ∧ disk.live = disk.proven) ∧
      ((disk.backup = none ∧ bootGuardStart disk io = (clearBootGuard disk, .ok)) ∨
        ∃ bak, disk.backup = some bak ∧ bootGuardStart disk io =
          ({ clearBootGuard disk with live := some bak }, .revert))) := by
  obtain ⟨hcounter, hcopied⟩ := hio
  unfold bootGuardStart
  simp only [hcounter, hcopied, Bool.not_true, Bool.false_eq_true, if_false, if_true]
  by_cases htrip : readAttempts disk.counter + 1 < maxAttempts
  · exact .inl ⟨htrip, if_pos htrip⟩
  · rw [if_neg htrip]
    by_cases hproven : disk.live.isSome = true ∧ disk.live = disk.proven
    · rw [if_pos hproven]
      exact .inr (.inl ⟨htrip, hproven.1, hproven.2, rfl⟩)
    · rw [if_neg hproven]
      refine .inr (.inr ⟨htrip, hproven, ?_⟩)
      cases hbackup : disk.backup with
      | none => exact .inl ⟨rfl, by simp [clearBootGuard, hbackup]⟩
      | some bak => exact .inr ⟨bak, rfl, by simp [clearBootGuard, hbackup]⟩

theorem hasPassed_of_proven (h : Sound w) (hsome : w.disk.live.isSome = true)
    (hproven : w.disk.live = w.disk.proven) : hasPassed w w.disk.live = true := by
  obtain ⟨d, hd⟩ := Option.isSome_iff_exists.mp hsome
  rw [h.proven, hd] at hproven
  rw [hd]
  simp only [hasPassed, Option.any_some, List.contains_eq_mem, decide_eq_true_eq]
  exact List.mem_of_head? hproven.symm

theorem proven_of_hasPassed (h : Sound w) (hkeeps : keeps w (.start io) = true)
    (hpassed : hasPassed w w.disk.live = true) : w.disk.live = w.disk.proven := by
  simp only [keeps, hpassed, Bool.not_true, Bool.false_or, Bool.true_or, Bool.and_true,
    Bool.and_eq_true, decide_eq_true_eq] at hkeeps
  rw [h.proven]
  exact hkeeps.2.symm

theorem sound_start (h : Sound w) (hkeeps : keeps w (.start io) = true) : Sound (start w io) := by
  have hlast := proven_of_hasPassed h hkeeps
  simp only [keeps, Bool.and_eq_true, Bool.or_eq_true, decide_eq_true_eq] at hkeeps
  obtain ⟨⟨hio, _⟩, htrips⟩ := hkeeps
  unfold start
  dsimp only
  rcases @bootGuardStart_cases _ _ w.disk io hio with ⟨_, hstart⟩ | ⟨_, hsome, hproven, hstart⟩ |
    ⟨htrip, hunproven, ⟨hbackup, hstart⟩ | ⟨bak, hbackup, hstart⟩⟩
  · rw [hstart]
    refine ⟨h.proven, fun hnew => ?_, ?_⟩
    · change readAttempts w.disk.counter + 1 = _
      rw [failures_own, h.counted hnew]
    · rintro digest ⟨rfl⟩
      rfl
  · rw [hstart]
    refine ⟨h.proven, fun hnew => ?_, ?_⟩
    · have hpassed : hasPassed w w.disk.live = true := hasPassed_of_proven h hsome hproven
      have hfresh : hasPassed w w.disk.live = false := hnew
      rw [hpassed] at hfresh
      cases hfresh
    · rintro digest ⟨rfl⟩
      rfl
  · rcases htrips with (hpassed | hfew) | ⟨hsome, _⟩
    · refine absurd ⟨?_, hlast hpassed⟩ hunproven
      cases hlive : w.disk.live with
      | none => simp [hasPassed, hlive] at hpassed
      | some d => rfl
    · exact absurd hfew htrip
    · rw [hbackup] at hsome
      cases hsome
  · rw [hstart]
    refine ⟨h.proven, fun hnew => ?_, ?_⟩
    · rcases htrips with (hpassed | hfew) | ⟨_, hother⟩
      · refine absurd ⟨?_, hlast hpassed⟩ hunproven
        cases hlive : w.disk.live with
        | none => simp [hasPassed, hlive] at hpassed
        | some d => rfl
      · exact absurd hfew htrip
      · rw [hbackup] at hother
        exact (failures_other (.inl (Ne.symm hother))).symm
    · rintro digest hrunning
      cases hrunning

theorem sound_pass (h : Sound w) {startedDigest : Option Digest}
    (hrunning : w.running = some startedDigest) : Sound (pass w startedDigest true) := by
  obtain ⟨rest, hstarts⟩ : ∃ rest, w.starts = ⟨startedDigest, false⟩ :: rest := by
    have hhead := h.running startedDigest hrunning
    exact ⟨_, (List.cons_head?_tail hhead).symm⟩
  refine ⟨?_, fun _ => ?_, ?_⟩
  · cases startedDigest with
    | none => exact h.proven
    | some d => rfl
  · have hcleared : (pass w startedDigest true).disk.counter = none := by
      cases startedDigest <;> rfl
    have hmarked : (pass w startedDigest true).starts = ⟨startedDigest, true⟩ :: rest := by
      simp [pass, hstarts]
    rw [hcleared, hmarked, failures_other (.inr rfl)]
    rfl
  · intro digest hnone
    cases hnone

theorem sound_step {e : Event Digest} (h : Sound w) (hkeeps : keeps w e = true)
    (hstep : step w e = some v) : Sound v := by
  cases e with
  | start io => exact Option.some.inj hstep ▸ sound_start h hkeeps
  | crash =>
    obtain rfl := Option.some.inj hstep
    refine ⟨h.proven, h.counted, ?_⟩
    intro digest hnone
    cases hnone
  | pass recorded =>
    obtain ⟨startedDigest, hrunning, rfl⟩ := Option.map_eq_some_iff.mp hstep
    obtain rfl : recorded = true := hkeeps
    exact sound_pass h hrunning
  | replace live backup =>
    obtain rfl := Option.some.inj hstep
    refine ⟨h.proven, fun hnew => ?_, h.running⟩
    have hfresh : hasPassed w live = false := hnew
    simp only [keeps, hfresh, Bool.or_false, Bool.or_eq_true, decide_eq_true_eq] at hkeeps
    rcases hkeeps with rfl | hcounted
    · exact h.counted hnew
    · exact hcounted

end

/-- In every history of starts, crashes, passes and replacements whose steps keep the counter and
the record the live bundle's own, a start reverts exactly a bundle that has never passed here, has
itself failed the starts just before, and has a backup. -/
theorem bootGuard_reverts_failing_bundle {live backup : Option Digest} {es : List (Event Digest)}
    {w : World Digest} {io : Io} {digest : Digest}
    (hrun : run step { disk := { live, backup } } es = some w)
    (halong : Along step (fun u e => keeps u e = true) { disk := { live, backup } } es)
    (hkeeps : keeps w (.start io) = true) (hlive : w.disk.live = some digest) :
    (bootGuardStart w.disk io).2 = .revert ↔
      digest ∉ w.passes ∧ maxAttempts - 1 ≤ failures (some digest) w.starts ∧
        w.disk.backup.isSome = true := by
  have hfirst : Sound ({ disk := { live, backup } } : World Digest) := by
    refine ⟨rfl, fun _ => rfl, ?_⟩
    intro digest hnone
    cases hnone
  have h : Sound w := run_invariant_along (fun _ _ _ hs hk ht => sound_step hs hk ht) hrun halong
    hfirst
  have hpassed : hasPassed w w.disk.live = true ↔ digest ∈ w.passes := by
    simp [hasPassed, hlive]
  have hlast := proven_of_hasPassed h hkeeps
  simp only [keeps, Bool.and_eq_true] at hkeeps
  have hio : io.counterWritten = true ∧ io.backupCopied = true := hkeeps.1.1
  have hcounted : digest ∉ w.passes →
      readAttempts w.disk.counter = failures (some digest) w.starts := by
    intro hnew
    rw [← hlive]
    exact h.counted (by rw [← Bool.not_eq_true, hpassed]; exact hnew)
  rcases @bootGuardStart_cases _ _ w.disk io hio with ⟨hfew, hstart⟩ | ⟨_, hsome, hproven, hstart⟩ |
    ⟨htrip, hunproven, ⟨hbackup, hstart⟩ | ⟨bak, hbackup, hstart⟩⟩
  · rw [hstart]
    refine iff_of_false Outcome.noConfusion ?_
    rintro ⟨hnew, hfailed, _⟩
    rw [hcounted hnew] at hfew
    omega
  · rw [hstart]
    refine iff_of_false Outcome.noConfusion ?_
    rintro ⟨hnew, _⟩
    exact hnew (hpassed.mp (hasPassed_of_proven h hsome hproven))
  · rw [hstart]
    refine iff_of_false Outcome.noConfusion ?_
    rintro ⟨_, _, hsome⟩
    rw [hbackup] at hsome
    cases hsome
  · rw [hstart]
    have hnew : digest ∉ w.passes := fun hmem =>
      hunproven ⟨by rw [hlive]; rfl, hlast (hpassed.mpr hmem)⟩
    refine iff_of_true rfl ⟨hnew, ?_, by rw [hbackup]; rfl⟩
    rw [hcounted hnew] at htrip
    omega

/-- Bundle 1 passes, its update 2 crash-loops, and its third start goes back to bundle 1. -/
def crashLoop : List (Event Nat) :=
  [.start {}, .pass true, .replace (some 2) (some 1), .start {}, .crash, .start {}, .crash]

theorem bootGuard_reverts_failing_bundle_crashLoop :
    ∃ w, run step { disk := { live := some 1 } } crashLoop = some w ∧
      ((bootGuardStart w.disk {}).2 = .revert ↔ 2 ∉ w.passes ∧
        maxAttempts - 1 ≤ failures (some 2) w.starts ∧ w.disk.backup.isSome = true) := by
  have hruns : ((run step { disk := { live := some 1 } } crashLoop).any fun w =>
      decide (keeps w (.start {}) = true ∧ w.disk.live = some 2)) = true := by decide
  obtain ⟨w, hrun, hw⟩ := (Option.any_eq_true _ _).mp hruns
  obtain ⟨hkeeps, hlive⟩ := of_decide_eq_true hw
  exact ⟨w, hrun, bootGuard_reverts_failing_bundle hrun
    (along_of_check (C := keeps) (by decide)) hkeeps hlive⟩

/-- Bundle 1 fails twice and is replaced by bundle 2, which then starts for the first time. -/
def inheritedFailures : List (Event Nat) :=
  [.start {}, .crash, .start {}, .crash, .replace (some 2) (some 1)]

/-- Bundle 1 passes, then bundle 2; a rollback to bundle 1 meets a crash loop of the machine. -/
def forgottenProof : List (Event Nat) :=
  [.start {}, .pass true, .replace (some 2) (some 1), .start {}, .pass true,
   .replace (some 1) (some 1), .start {}, .crash, .start {}, .crash]

/-- A bundle that has failed no start is reverted, and one that has completed a pass here. -/
theorem bootGuard_reverts_other_bundle :
    (∃ w, run step { disk := { live := some 1 } } inheritedFailures = some w ∧
      w.disk.live = some 2 ∧ (bootGuardStart w.disk {}).2 = .revert ∧
      failures (some 2) w.starts = 0) ∧
    ∃ w, run step { disk := { live := some 1 } } forgottenProof = some w ∧
      w.disk.live = some 1 ∧ (bootGuardStart w.disk {}).2 = .revert ∧ 1 ∈ w.passes := by
  constructor
  · have hruns : ((run step { disk := { live := some 1 } } inheritedFailures).any fun w =>
        decide (w.disk.live = some 2 ∧ (bootGuardStart w.disk {}).2 = .revert ∧
          failures (some 2) w.starts = 0)) = true := by decide
    obtain ⟨w, hrun, hw⟩ := (Option.any_eq_true _ _).mp hruns
    exact ⟨w, hrun, of_decide_eq_true hw⟩
  · have hruns : ((run step { disk := { live := some 1 } } forgottenProof).any fun w =>
        decide (w.disk.live = some 1 ∧ (bootGuardStart w.disk {}).2 = .revert ∧
          1 ∈ w.passes)) = true := by decide
    obtain ⟨w, hrun, hw⟩ := (Option.any_eq_true _ _).mp hruns
    exact ⟨w, hrun, of_decide_eq_true hw⟩

end Ccmux.Util.BootGuard
