/- Module: Ccmux/Release/Bundle
   source: src/release/update.ts, src/util/bootGuard.ts, src/util/atomic.ts
   digest: The live bundle, its backup and the backup's digest, one file operation at a time. -/

import Mathlib

namespace Ccmux.Release

/-- The bundle, `.bak` and `.bak.sha256`; each is replaced whole. -/
structure Files (Bundle Digest : Type) where
  live : Option Bundle
  backup : Option Bundle := none
  digest : Option Digest := none
  deriving DecidableEq, Repr

/-- The hash, and the library's update and rollback. `backUp` and `swap` are the two file
operations of `applyCliUpdate`: the backup with its digest, and the replacement. -/
structure Builtins (Bundle Digest : Type) where
  sha256Of : Bundle → Digest
  backUp : Files Bundle Digest → Files Bundle Digest × Option Digest
  swap : Files Bundle Digest → Bundle → Files Bundle Digest
  rollbackCliUpdate : Files Bundle Digest → Digest → Option (Files Bundle Digest)

variable {Bundle Digest : Type}

/-- What the library promises: a backup of the bundle that is replaced, with its digest, and a
rollback to exactly the backup that the digest names. -/
structure Documented (b : Builtins Bundle Digest) : Prop where
  backUp_live : ∀ files bundle, files.live = some bundle →
    b.backUp files = ({ files with backup := some bundle }, some (b.sha256Of bundle))
  backUp_none : ∀ files, files.live = none → b.backUp files = (files, none)
  swap_live : ∀ files candidate, b.swap files candidate = { files with live := some candidate }
  rollback_exact : ∀ files bundle, files.backup = some bundle →
    b.rollbackCliUpdate files (b.sha256Of bundle) = some { files with live := some bundle }
  rollback_refuses : ∀ files bundle digest, files.backup = some bundle →
    b.sha256Of bundle ≠ digest → b.rollbackCliUpdate files digest = none

/-- The install that holds the update lock, before its next file operation. -/
inductive Job (Bundle Digest : Type) where
  | copying (source current : Bundle)
  | recording (source current : Bundle)
  | replacing (source : Bundle) (backed : Option Bundle)
  | applying (candidate : Bundle)
  | swapping (candidate : Bundle) (backupSha256 : Option Digest)
  | noting (backupSha256 : Digest)
  deriving DecidableEq, Repr

/-- `replaced` is the bundle that the last completed swap replaced, `installed` every bundle that
was ever put live by an install, and `reverting` what the boot guard has read of the backup. -/
structure World (Bundle Digest : Type) where
  files : Files Bundle Digest
  job : Option (Job Bundle Digest) := none
  reverting : Option Bundle := none
  replaced : Option Bundle := none
  installed : List Bundle := []
  deriving DecidableEq, Repr

def World.start (live : Option Bundle) : World Bundle Digest :=
  { files := { live }, installed := live.toList }

inductive Event (Bundle : Type) where
  | replaceBundle (source : Bundle)
  | downloadVerifyApply (candidate : Bundle)
  | operation
  | stop
  | restoreBackup
  | guardReads
  | guardWrites
  | guardStops
  deriving DecidableEq, Repr

/-- `restoreBackup`: whether there was a backup and the files after it; `none` is a throw. -/
def restoreBackup (b : Builtins Bundle Digest) (files : Files Bundle Digest) :
    Option (Bool × Files Bundle Digest) :=
  match files.backup with
  | none => some (false, files)
  | some bak =>
    match files.digest with
    | none => some (true, { files with live := some bak })
    | some digest => (b.rollbackCliUpdate files digest).map fun restored => (true, restored)

/-- `replaceBundle` under the lock, up to its first write. -/
def replaceBundle [DecidableEq Bundle] (w : World Bundle Digest) (source : Bundle) :
    World Bundle Digest :=
  match w.files.live with
  | none => { w with job := some (.replacing source none) }
  | some current =>
    if current = source then w else { w with job := some (.copying source current) }

/-- `downloadVerifyApply` under the lock, up to the library's first write; the candidate is what
was downloaded, its digest the one of the release's asset. -/
def downloadVerifyApply [DecidableEq Digest] (b : Builtins Bundle Digest)
    (w : World Bundle Digest) (candidate : Bundle) : World Bundle Digest :=
  if w.files.live.map b.sha256Of = some (b.sha256Of candidate) then w
  else { w with job := some (.applying candidate) }

/-- A completed swap: what was live is replaced. -/
def World.swapped (w : World Bundle Digest) (candidate : Bundle) (files : Files Bundle Digest)
    (job : Option (Job Bundle Digest)) : World Bundle Digest :=
  { w with
    files
    job
    replaced := w.files.live
    installed := w.installed ++ [candidate] }

/-- The next file operation of an install. -/
def operation (b : Builtins Bundle Digest) (w : World Bundle Digest) :
    Job Bundle Digest → World Bundle Digest
  | .copying source current =>
    match w.files.live with
    -- `copyFileAtomic` reads the target once more; where it is gone the swap is aborted.
    | none => { w with job := none }
    | some now =>
      { w with
        files := { w.files with backup := some now }
        job := some (.recording source current) }
  | .recording source current =>
    { w with
      files := { w.files with digest := some (b.sha256Of current) }
      job := some (.replacing source (some current)) }
  | .replacing source _ => w.swapped source { w.files with live := some source } none
  | .applying candidate =>
    let applied := b.backUp w.files
    { w with files := applied.1, job := some (.swapping candidate applied.2) }
  | .swapping candidate backupSha256 =>
    w.swapped candidate (b.swap w.files candidate) (backupSha256.map Job.noting)
  | .noting backupSha256 =>
    { w with files := { w.files with digest := some backupSha256 }, job := none }

/-- The update lock admits one install or rollback at a time; the boot guard takes no lock. -/
@[grind =]
def step [DecidableEq Bundle] [DecidableEq Digest] (b : Builtins Bundle Digest)
    (w : World Bundle Digest) : Event Bundle → Option (World Bundle Digest)
  | .replaceBundle source => if w.job.isNone then some (replaceBundle w source) else none
  | .downloadVerifyApply candidate =>
    if w.job.isNone then some (downloadVerifyApply b w candidate) else none
  | .operation => w.job.map (operation b w)
  | .stop => w.job.map fun _ => { w with job := none }
  | .restoreBackup =>
    if w.job.isNone then
      some { w with files := ((restoreBackup b w.files).map (·.2)).getD w.files }
    else none
  | .guardReads => w.files.backup.map fun bak => { w with reverting := some bak }
  | .guardWrites =>
    w.reverting.map fun bak =>
      { w with files := { w.files with live := some bak }, reverting := none }
  | .guardStops => some { w with reverting := none }

end Ccmux.Release
