/- Module: Ccmux/Chat/CursorRun
   source: src/chat/cursors.ts (commitCursors, saveCursors, markRead)
   digest: Under the cursors lock the daemon and the inbox never move each other's reads back. -/

import Ccmux.Lib.Machine
import Ccmux.Chat.Cursors

namespace Ccmux.Chat.CursorRun

open Ccmux.Lib.Machine
open Ccmux.Chat.Message
open Ccmux.Chat.Cursors

/-- A change a process makes to the file in one locked read-modify-write. -/
inductive Change where
  | save (c : ChatCursors)
  | mark (recipientKey : String) (ledgerLen : Nat)

/-- The change applied to the file as it is now. -/
def Change.apply (fresh : ChatCursors) : Change → ChatCursors
  | .save c => saveCursors fresh c
  | .mark recipientKey ledgerLen => markRead fresh recipientKey ledgerLen

/-- The read positions the change asks for. -/
def Change.reads : Change → (String → Option Nat)
  | .save c => c.read
  | .mark recipientKey ledgerLen => assign (fun _ => none) recipientKey (some ledgerLen)

/-- What the lock holder is about to write. -/
structure Held where
  change : Change
  value : ChatCursors

/-- The file, the daemon's snapshot and the lock; `saved` is what the daemon saved last and
`reads` the read positions either side has written so far. -/
structure World where
  file : ChatCursors
  snapshot : ChatCursors
  lock : Option Held
  saved : ChatCursors
  reads : List (String → Option Nat)

/-- The daemon has loaded the file, so the file exists. -/
def World.start (file : ChatCursors) : World := ⟨file, file, none, file, []⟩

inductive Event where
  | load
  | mutate (change : ChatCursors → ChatCursors)
  | openSave
  | openMark (recipientKey : String) (ledgerLen : Nat)
  | write
  | abandon

/-- `commitCursors` under the lock: the file is read when the lock is taken, written before it is
released; a holder may also die in between. -/
def World.acquire (w : World) (change : Change) : Option World :=
  match w.lock with
  | some _ => none
  | none => some { w with lock := some ⟨change, change.apply w.file⟩ }

def step (w : World) : Event → Option World
  | .load => some { w with snapshot := w.file }
  | .mutate change => some { w with snapshot := change w.snapshot }
  | .openSave => w.acquire (.save w.snapshot)
  | .openMark recipientKey ledgerLen => w.acquire (.mark recipientKey ledgerLen)
  | .write =>
    w.lock.map fun held =>
      { w with
        file := held.value
        lock := none
        saved := match held.change with
          | .save c => c
          | .mark _ _ => w.saved
        reads := w.reads ++ [held.change.reads] }
  | .abandon => some { w with lock := none }

def SameOwned (a b : ChatCursors) : Prop :=
  a.delivered = b.delivered ∧ a.pickups = b.pickups ∧ a.telegram = b.telegram

structure Merged (w : World) : Prop where
  fresh : ∀ held, w.lock = some held → held.value = held.change.apply w.file
  owned : SameOwned w.file w.saved
  reached : ∀ reads ∈ w.reads, Behind reads w.file.read

theorem behind_apply (fresh : ChatCursors) (change : Change) :
    Behind fresh.read (change.apply fresh).read := by
  cases change <;> exact behind_furthest_left _ _

theorem reads_behind_apply (fresh : ChatCursors) (change : Change) :
    Behind change.reads (change.apply fresh).read := by
  cases change <;> exact behind_furthest_right _ _

variable {w v : World}

variable {e : Event}

theorem step_file (hw : Merged w) (hstep : step w e = some v) :
    v.file = w.file ∨ ∃ held, w.lock = some held ∧ v.file = held.change.apply w.file := by
  cases e with
  | load | mutate _ | abandon =>
    obtain rfl := Option.some.inj hstep
    exact Or.inl rfl
  | openSave | openMark _ _ =>
    simp only [step, World.acquire] at hstep
    split at hstep
    · cases hstep
    · obtain rfl := Option.some.inj hstep
      exact Or.inl rfl
  | write =>
    obtain ⟨held, hlock, rfl⟩ := Option.map_eq_some_iff.mp hstep
    exact Or.inr ⟨held, hlock, hw.fresh held hlock⟩

theorem Merged.acquire {change : Change} (hw : Merged w)
    (h : w.acquire change = some v) : Merged v := by
  unfold World.acquire at h
  split at h
  · cases h
  · obtain rfl := Option.some.inj h
    refine { hw with fresh := ?_ }
    rintro held ⟨⟩
    rfl

theorem Merged.write {w : World} {held : Held} (hw : Merged w) (hlock : w.lock = some held) :
    Merged { w with
      file := held.value
      lock := none
      saved := match held.change with
        | .save c => c
        | .mark _ _ => w.saved
      reads := w.reads ++ [held.change.reads] } := by
  have hvalue := hw.fresh held hlock
  refine ⟨by simp, ?_, ?_⟩
  · simp only [hvalue]
    cases hchange : held.change with
    | save c => exact ⟨rfl, rfl, rfl⟩
    | mark recipientKey ledgerLen => exact hw.owned
  · intro reads hreads
    simp only [hvalue]
    rcases List.mem_append.mp hreads with hold | hnew
    · exact (hw.reached reads hold).trans (behind_apply w.file held.change)
    · obtain rfl := List.mem_singleton.mp hnew
      exact reads_behind_apply w.file held.change

theorem Merged.step (w : World) (e : Event) (v : World) (hw : Merged w)
    (hstep : step w e = some v) : Merged v := by
  cases e with
  | load | mutate _ =>
    obtain rfl := Option.some.inj hstep
    exact { hw with }
  | abandon =>
    obtain rfl := Option.some.inj hstep
    exact { hw with fresh := by simp }
  | openSave | openMark _ _ => exact hw.acquire hstep
  | write =>
    obtain ⟨held, hlock, rfl⟩ := Option.map_eq_some_iff.mp hstep
    exact hw.write hlock

theorem Merged.start (file : ChatCursors) : Merged (World.start file) := by
  constructor <;> simp [World.start, SameOwned]

theorem step_reads_behind (hw : Merged w)
    (hstep : CursorRun.step w e = some v) : Behind w.file.read v.file.read := by
  rcases step_file hw hstep with hsame | ⟨held, _, hfile⟩
  · rw [hsame]
    exact Behind.refl _
  · rw [hfile]
    exact behind_apply w.file held.change

theorem run_reads_behind {es : List Event} (hw : Merged w)
    (hrun : run CursorRun.step w es = some v) : Behind w.file.read v.file.read := by
  induction es generalizing w with
  | nil =>
    obtain rfl := Option.some.inj hrun
    exact Behind.refl _
  | cons e es ih =>
    obtain ⟨m, hm, hv⟩ := run_cons.mp hrun
    exact (step_reads_behind hw hm).trans (ih (hw.step w e m hm) hv)

/-- Every interleaving of saves from stale snapshots and of inbox marks: read positions only move
forward, they reach every position written before, and the daemon's own fields stay as it last
saved them. -/
theorem commits_never_lose_reads {file : ChatCursors} {m t : World} {earlier later : List Event}
    (hearlier : run CursorRun.step (World.start file) earlier = some m)
    (hlater : run CursorRun.step m later = some t) :
    (∀ key, position m.file.read key ≤ position t.file.read key) ∧
    (∀ reads ∈ t.reads, ∀ key, position reads key ≤ position t.file.read key) ∧
    t.file.delivered = t.saved.delivered ∧ t.file.pickups = t.saved.pickups ∧
    t.file.telegram = t.saved.telegram := by
  have hm : Merged m := run_invariant Merged.step hearlier (Merged.start file)
  have ht : Merged t := run_invariant Merged.step hlater hm
  exact ⟨run_reads_behind hm hlater, ht.reached, ht.owned⟩

/-- An inbox mark taken between a daemon's load and its save survives the save. -/
theorem commits_never_lose_reads_stale_save :
    ∃ t, run CursorRun.step (World.start ChatCursors.empty)
        [.openMark "k" 3, .write, .openSave, .write] = some t ∧
      position t.file.read "k" = 3 ∧
      ∀ reads ∈ t.reads, ∀ key, position reads key ≤ position t.file.read key := by
  have hearlier : run CursorRun.step (World.start ChatCursors.empty) [] =
      some (World.start ChatCursors.empty) := rfl
  refine ⟨_, rfl, by decide, ?_⟩
  exact (commits_never_lose_reads hearlier
    (show run CursorRun.step _ [.openMark "k" 3, .write, .openSave, .write] = some _ from rfl)).2.1

end Ccmux.Chat.CursorRun
