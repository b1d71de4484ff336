/- Module: Ccmux/Events/FeedRun
   source: src/events/feed.ts, src/util/jsonl.ts (rotateBySize)
   digest: What any number of writers leave for one follower to read. -/

import Ccmux.Events.Feed
import Ccmux.Lib.Machine

namespace Ccmux.Events.Feed

open Ccmux.Lib.Lines
open Ccmux.Lib.Machine

/-- The files the reader still looks into. -/
@[grind =]
def sight (w : World) : List Nat :=
  match w.reader with
  | .waiting => [Path.second, .first, .current].filterMap w.directory.file
  | .backlog paths => paths.filterMap w.directory.file ++ w.directory.current.toList
  | .following _ => w.directory.current.toList

/-- What the reader has not read of a file. -/
@[grind =]
def unread (w : World) (file : Nat) : List UInt8 := (w.contents file).drop (w.seen file)

def pending (c : Codec) (w : World) (file : Nat) : List SessionEvent := eventsOf c (unread w file)

def Before (w : World) : Prop := ∀ tail, w.reader ≠ .following tail

/-- What the renames take out of the reader's sight holds no event it still has to pass on. -/
def RotatesRead (c : Codec) (opts : FollowOptions) (w : World) : Prop :=
  ∀ file ∈ sight w, file ∉ sight { w with directory := w.directory.rotate } →
    ∀ e ∈ w.expected, selects opts e = true → e ∉ pending c w file

/-- An event whose line gets its end is in the reader's sight, and no older than its cursor while
that decides. -/
def EndsInSight (c : Codec) (opts : FollowOptions) (w : World) (event : SessionEvent) (file : Nat) :
    Prop :=
  isPast c opts w = true → selects opts event = true →
    file ∈ sight w ∧ (Before w → isOlder c opts event = false)

/-- The position is one of the file at the path, or beyond its end, or at its start. -/
def Fits (w : World) : Prop :=
  ∀ tail file, w.reader = .following tail → w.directory.current = some file →
    w.position = some file ∨ w.size file < tail.offset ∨ tail.offset = 0

def Allowed (c : Codec) (opts : FollowOptions) (w : World) : Event → Prop
  | .rotate writer =>
    (∃ event, w.writers writer = some (.checked event true)) → RotatesRead c opts w
  | .write writer count =>
    ∀ event file rest, w.writers writer = some (.writing event file rest) →
      rest.length ≤ count → EndsInSight c opts w event file
  | .stat => ∀ file, w.directory.current = some file → w.size file = w.seen file
  | .drain readable => readable = true → Fits w
  | _ => True

/-- The built events are read back from their lines. -/
def BuildsRead (c : Codec) : Event → Prop
  | .build _ event => c.Reads event
  | _ => True

section
variable {c : Codec} {opts : FollowOptions} {w v : World}

theorem eventsOf_part {bytes more : List UInt8} (h : ∀ x ∈ more, x ≠ newline) :
    eventsOf c (bytes ++ more) = eventsOf c bytes := by
  simp only [eventsOf, cut_append_free h]
  rfl

variable {event : SessionEvent}

theorem eventsOf_line {bytes more : List UInt8} (hfree : ∀ x ∈ more, x ≠ newline)
    (hparse : c.parse ((cut newline bytes).tail ++ more) = some event) :
    eventsOf c (bytes ++ (more ++ [newline])) = eventsOf c bytes ++ [event] := by
  simp [eventsOf, (cut_append_line hfree).1, hparse]

theorem eventsOf_drop {bytes : List UInt8} {n : Nat} (h : (cut newline (bytes.take n)).tail = []) :
    eventsOf c bytes = eventsOf c (bytes.take n) ++ eventsOf c (bytes.drop n) := by
  have hraws := (cut_after_whole h (bytes.drop n)).1
  rw [List.take_append_drop] at hraws
  simp [eventsOf, hraws]

theorem selected_backlogOf {bytes : List UInt8} (h : event ∈ eventsOf c bytes)
    (hselects : selects opts event = true) (hage : isOlder c opts event = false) :
    event ∈ backlogOf c opts bytes := by
  refine List.mem_filter.mpr ⟨h, ?_⟩
  simp [hselects, hage]

/-- The position of a follower, in the file at the path or in one that was rotated away. -/
structure Placed (w : World) (tail : Tail) : Prop where
  carry : tail.carry.length ≤ tail.offset
  reset : w.position = none → tail.offset = 0
  here : ∀ file, w.directory.current = some file → w.position = some file →
    w.seen file + tail.carry.length = tail.offset ∧ tail.offset ≤ w.size file ∧
      tail.carry = (unread w file).take tail.carry.length
  away : ∀ file, w.directory.current = some file → w.position ≠ some file → w.seen file = 0
  free : ∀ x ∈ tail.carry, x ≠ newline

/-- Every expected event is passed on, or in a file in sight. -/
def Awaited (c : Codec) (opts : FollowOptions) (w : World) (e : SessionEvent) : Prop :=
  e ∈ w.delivered ∨
    ((∃ file ∈ sight w, e ∈ pending c w file) ∧ (Before w → isOlder c opts e = false))

structure Kept (c : Codec) (opts : FollowOptions) (w : World) : Prop where
  reads : ∀ writer phase, w.writers writer = some phase → c.Reads phase.event
  fresh : ∀ file, w.next ≤ file → w.contents file = [] ∧ w.seen file = 0 ∧ w.lock file = none
  known : ∀ path file, w.directory.file path = some file → file < w.next
  positioned : ∀ file, w.position = some file → file < w.next
  writing : ∀ writer event file rest, w.writers writer = some (.writing event file rest) →
    rest ≠ [] ∧ file < w.next ∧ ∃ written, written ++ rest = c.line event ∧
      (w.lock file = some writer → (cut newline (w.contents file)).tail = written) ∧
      (w.lock file ≠ some writer → written = [])
  held : ∀ file writer, w.lock file = some writer →
    ∃ event rest, w.writers writer = some (.writing event file rest)
  free : ∀ file, w.lock file = none → (cut newline (w.contents file)).tail = []
  whole : ∀ file, w.seen file ≤ w.size file ∧
    (cut newline ((w.contents file).take (w.seen file))).tail = []
  placed : ∀ tail, w.reader = .following tail → Placed w tail
  awaited : ∀ e ∈ w.expected, selects opts e = true → Awaited c opts w e

theorem put_some {α : Type} {entries : Nat → Option α} {key other : Nat} {value : Option α}
    {found : α} (h : put entries key value other = some found) :
    (other = key ∧ value = some found) ∨ (other ≠ key ∧ entries other = some found) := by
  by_cases heq : other = key
  · rw [heq, put_self] at h
    exact Or.inl ⟨heq, h⟩
  · rw [put_of_ne _ _ heq] at h
    exact Or.inr ⟨heq, h⟩

theorem Kept.stillHeld {writer : Nat} {phase : Option Phase} (hw : Kept c opts w)
    (hbefore : ∀ event file rest, w.writers writer ≠ some (.writing event file rest)) :
    ∀ file other, w.lock file = some other →
      ∃ event rest, put w.writers writer phase other = some (.writing event file rest) := by
  intro file other hlock
  obtain ⟨event, rest, hwriting⟩ := hw.held file other hlock
  have hne : other ≠ writer := by
    intro heq
    rw [heq] at hwriting
    exact hbefore event file rest hwriting
  exact ⟨event, rest, by rw [put_of_ne _ _ hne, hwriting]⟩

theorem Kept.writer {writer : Nat} {phase : Phase} (hw : Kept c opts w) (hreads : c.Reads phase.event)
    (hphase : ∀ event file rest, phase ≠ .writing event file rest)
    (hbefore : ∀ event file rest, w.writers writer ≠ some (.writing event file rest)) :
    Kept c opts { w with writers := put w.writers writer (some phase) } := by
  refine ⟨?_, hw.fresh, hw.known, hw.positioned, ?_, ?_, hw.free, hw.whole, ?_, hw.awaited⟩
  · intro other found hput
    rcases put_some hput with ⟨_, hsome⟩ | ⟨_, hold⟩
    · rw [← Option.some.inj hsome]
      exact hreads
    · exact hw.reads other found hold
  · intro other event file rest hput
    rcases put_some hput with ⟨_, hsome⟩ | ⟨_, hold⟩
    · exact absurd (Option.some.inj hsome) (hphase event file rest)
    · exact hw.writing other event file rest hold
  · exact hw.stillHeld hbefore
  · intro tail hreader
    have hplaced := hw.placed tail hreader
    exact ⟨hplaced.carry, hplaced.reset, hplaced.here, hplaced.away, hplaced.free⟩

theorem Kept.rotated (hw : Kept c opts w) (hread : RotatesRead c opts w) :
    Kept c opts { w with directory := w.directory.rotate } := by
  refine ⟨hw.reads, hw.fresh, ?_, hw.positioned, hw.writing, hw.held, hw.free, hw.whole, ?_, ?_⟩
  · intro path file hfile
    cases path with
    | second => exact hw.known .first file hfile
    | first => exact hw.known .current file hfile
    | current => cases hfile
  · intro tail hreader
    have hplaced := hw.placed tail hreader
    refine ⟨hplaced.carry, hplaced.reset, ?_, ?_, hplaced.free⟩
    · intro file hcurrent
      cases hcurrent
    · intro file hcurrent
      cases hcurrent
  · intro e he hselects
    rcases hw.awaited e he hselects with hdelivered | ⟨⟨file, hsight, hpending⟩, hage⟩
    · exact Or.inl hdelivered
    · by_cases hstays : file ∈ sight { w with directory := w.directory.rotate }
      · exact Or.inr ⟨⟨file, hstays, hpending⟩, hage⟩
      · exact absurd hpending (hread file hsight hstays e he hselects)

/-- Opening creates the file at the path when there is none. -/
theorem Kept.created (hw : Kept c opts w) (hnone : w.directory.current = none) :
    Kept c opts
      { w with next := w.next + 1, directory := { w.directory with current := some w.next } } := by
  have hsight : ∀ file ∈ sight w, file ∈ sight
      { w with next := w.next + 1, directory := { w.directory with current := some w.next } } := by
    intro file hfile
    have hpath : ∀ path found, w.directory.file path = some found →
        ({ w.directory with current := some w.next } : Directory).file path = some found := by
      intro path found hfound
      cases path with
      | second => exact hfound
      | first => exact hfound
      | current =>
        rw [show w.directory.file .current = w.directory.current from rfl, hnone] at hfound
        cases hfound
    unfold sight at hfile ⊢
    cases hreader : w.reader with
    | waiting =>
      rw [hreader] at hfile
      obtain ⟨path, hmem, hfound⟩ := List.mem_filterMap.mp hfile
      exact List.mem_filterMap.mpr ⟨path, hmem, hpath path file hfound⟩
    | backlog paths =>
      rw [hreader] at hfile
      rcases List.mem_append.mp hfile with hfile | hfile
      · obtain ⟨path, hmem, hfound⟩ := List.mem_filterMap.mp hfile
        exact List.mem_append_left _ (List.mem_filterMap.mpr ⟨path, hmem, hpath path file hfound⟩)
      · rw [hnone] at hfile
        cases hfile
    | following tail =>
      rw [hreader, hnone] at hfile
      cases hfile
  refine ⟨hw.reads, ?_, ?_, ?_, ?_, hw.held, hw.free, hw.whole, ?_, ?_⟩
  · intro file hle
    exact hw.fresh file (Nat.le_of_succ_le hle)
  · intro path file hfile
    show file < w.next + 1
    cases path with
    | second => exact Nat.lt_succ_of_lt (hw.known .second file hfile)
    | first => exact Nat.lt_succ_of_lt (hw.known .first file hfile)
    | current =>
      obtain rfl := Option.some.inj hfile
      exact Nat.lt_succ_self _
  · intro file hposition
    exact Nat.lt_succ_of_lt (hw.positioned file hposition)
  · intro writer event file rest hwriting
    obtain ⟨hrest, hlt, hline⟩ := hw.writing writer event file rest hwriting
    exact ⟨hrest, Nat.lt_succ_of_lt hlt, hline⟩
  · intro tail hreader
    have hplaced := hw.placed tail hreader
    refine ⟨hplaced.carry, hplaced.reset, ?_, ?_, hplaced.free⟩
    · intro file hcurrent hposition
      obtain rfl := Option.some.inj hcurrent
      exact absurd (hw.positioned _ hposition) (Nat.lt_irrefl _)
    · intro file hcurrent _
      obtain rfl := Option.some.inj hcurrent
      exact (hw.fresh _ (Nat.le_refl _)).2.1
  · intro e he hselects
    rcases hw.awaited e he hselects with hdelivered | ⟨⟨file, hfile, hpending⟩, hage⟩
    · exact Or.inl hdelivered
    · exact Or.inr ⟨⟨file, hsight file hfile, hpending⟩, hage⟩

/-- A writer takes the file at the path, with its whole line before it. -/
theorem Kept.opened {writer file : Nat} (hw : Kept c opts w)
    (hreads : c.Reads event) (hlt : file < w.next)
    (hbefore : ∀ event file rest, w.writers writer ≠ some (.writing event file rest)) :
    Kept c opts
      { w with writers := put w.writers writer (some (.writing event file (c.line event))) } := by
  have hlock : w.lock file ≠ some writer := by
    intro hlock
    obtain ⟨event, rest, hwriting⟩ := hw.held file writer hlock
    exact hbefore event file rest hwriting
  refine ⟨?_, hw.fresh, hw.known, hw.positioned, ?_, hw.stillHeld hbefore, hw.free, hw.whole, ?_,
    hw.awaited⟩
  · intro other found hput
    rcases put_some hput with ⟨_, hsome⟩ | ⟨_, hold⟩
    · rw [← Option.some.inj hsome]
      exact hreads
    · exact hw.reads other found hold
  · intro other found place rest hput
    rcases put_some hput with ⟨rfl, hsome⟩ | ⟨_, hold⟩
    · obtain ⟨rfl, rfl, rfl⟩ := Phase.writing.inj (Option.some.inj hsome)
      refine ⟨?_, hlt, [], rfl, fun h => absurd h hlock, fun _ => rfl⟩
      simp [Codec.line]
    · exact hw.writing other found place rest hold
  · intro tail hreader
    have hplaced := hw.placed tail hreader
    exact ⟨hplaced.carry, hplaced.reset, hplaced.here, hplaced.away, hplaced.free⟩

theorem line_rest {written rest : List UInt8} (hline : written ++ rest = c.line event)
    (hne : rest ≠ []) :
    written ++ rest.dropLast = c.render event ∧ rest = rest.dropLast ++ [newline] := by
  have hdrop : written ++ rest.dropLast = c.render event := by
    have h := congrArg List.dropLast hline
    rwa [List.dropLast_append_of_ne_nil hne, Codec.line, List.dropLast_concat] at h
  refine ⟨hdrop, ?_⟩
  have hsame : written ++ rest = written ++ (rest.dropLast ++ [newline]) := by
    rw [hline, ← List.append_assoc, hdrop, Codec.line]
  exact List.append_cancel_left hsame

theorem part_free {written rest : List UInt8} {count : Nat} (hreads : c.Reads event)
    (hline : written ++ rest = c.line event)
    (hleft : rest.drop count ≠ []) : ∀ x ∈ rest.take count, x ≠ newline := by
  intro x hx
  refine hreads.2 x ?_
  have hparts : written ++ rest.take count ++ rest.drop count = c.line event := by
    rw [List.append_assoc, List.take_append_drop, hline]
  rw [← (line_rest hparts hleft).1]
  exact List.mem_append_left _ (List.mem_append_right _ hx)

theorem part_ends {written rest : List UInt8} {count : Nat} (hreads : c.Reads event)
    (hline : written ++ rest = c.line event) (hne : rest ≠ [])
    (hleft : rest.drop count = []) :
    ∃ more, rest.take count = more ++ [newline] ∧ written ++ more = c.render event ∧
      ∀ x ∈ more, x ≠ newline := by
  have hall : rest.take count = rest := by
    have h := List.take_append_drop count rest
    rwa [hleft, List.append_nil] at h
  obtain ⟨hrender, hrest⟩ := line_rest hline hne
  refine ⟨rest.dropLast, hall.trans hrest, hrender, ?_⟩
  intro x hx
  refine hreads.2 x ?_
  show x ∈ c.render event
  rw [← hrender]
  exact List.mem_append_right _ hx

theorem Kept.tail_unread (hw : Kept c opts w) (file : Nat) :
    (cut newline (unread w file)).tail = (cut newline (w.contents file)).tail := by
  obtain ⟨_, _, htail⟩ := cut_after_whole (hw.whole file).2 (unread w file)
  have hall : (w.contents file).take (w.seen file) ++ unread w file = w.contents file :=
    List.take_append_drop _ _
  rw [hall] at htail
  exact htail.symm

theorem Kept.written {writer file : Nat} {rest : List UInt8} (hw : Kept c opts w)
    (hwriting : w.writers writer = some (.writing event file rest))
    (hlock : w.lock file = none ∨ w.lock file = some writer) :
    (cut newline (w.contents file)).tail ++ rest = c.line event := by
  obtain ⟨_, _, written, hline, hheld, hstarts⟩ := hw.writing writer event file rest hwriting
  rcases hlock with hnone | hsome
  · have hempty := hstarts (by rw [hnone]; exact nofun)
    rw [hw.free file hnone, ← hempty]
    exact hline
  · rw [hheld hsome]
    exact hline

section
variable {writer count file : Nat} {event : SessionEvent} {rest : List UInt8}

theorem unread_wrote (hle : w.seen file ≤ w.size file) :
    unread (writeBytes c opts w writer count event file rest) file =
      unread w file ++ rest.take count := by
  show (put w.contents file (w.contents file ++ rest.take count) file).drop (w.seen file) = _
  rw [put_self]
  exact List.drop_append_of_le_length hle

theorem unread_other {other : Nat} (hne : other ≠ file) :
    unread (writeBytes c opts w writer count event file rest) other = unread w other := by
  show (put w.contents file (w.contents file ++ rest.take count) other).drop (w.seen other) = _
  rw [put_of_ne _ _ hne]
  rfl

theorem Kept.pending_wrote (hw : Kept c opts w)
    (hwriting : w.writers writer = some (.writing event file rest))
    (hlock : w.lock file = none ∨ w.lock file = some writer) :
    pending c (writeBytes c opts w writer count event file rest) file =
      pending c w file ++ if rest.drop count = [] then [event] else [] := by
  have hreads := hw.reads writer _ hwriting
  have hline := hw.written hwriting hlock
  rw [pending, unread_wrote (hw.whole file).1]
  by_cases hleft : rest.drop count = []
  · obtain ⟨hne, _⟩ := hw.writing writer event file rest hwriting
    obtain ⟨more, htake, hrender, hfree⟩ := part_ends hreads hline hne hleft
    rw [if_pos hleft, htake]
    refine eventsOf_line hfree ?_
    rw [hw.tail_unread, hrender]
    exact hreads.1
  · rw [if_neg hleft, List.append_nil]
    exact eventsOf_part (part_free hreads hline hleft)

/-- Each writer is still where its file says: the one that wrote is further in its line. -/
theorem Kept.writing_wrote (hw : Kept c opts w)
    (hwriting : w.writers writer = some (.writing event file rest))
    (hlock : w.lock file = none ∨ w.lock file = some writer) :
    ∀ other found place left,
      (writeBytes c opts w writer count event file rest).writers other =
        some (.writing found place left) →
      left ≠ [] ∧ place < w.next ∧ ∃ written, written ++ left = c.line found ∧
        ((writeBytes c opts w writer count event file rest).lock place = some other →
          (cut newline ((writeBytes c opts w writer count event file rest).contents place)).tail =
            written) ∧
        ((writeBytes c opts w writer count event file rest).lock place ≠ some other →
          written = []) := by
  obtain ⟨_, hlt, _⟩ := hw.writing writer event file rest hwriting
  have hreads := hw.reads writer _ hwriting
  have hline := hw.written hwriting hlock
  intro other found place left hput
  show left ≠ [] ∧ place < w.next ∧ ∃ written, written ++ left = c.line found ∧
    (put w.lock file (if rest.drop count = [] then none else some writer) place = some other →
      (cut newline (put w.contents file (w.contents file ++ rest.take count) place)).tail =
        written) ∧
    (put w.lock file (if rest.drop count = [] then none else some writer) place ≠ some other →
      written = [])
  rcases put_some hput with ⟨rfl, hsome⟩ | ⟨hwriter, hold⟩
  · split at hsome
    · cases hsome
    · rename_i hleft
      obtain ⟨rfl, rfl, rfl⟩ := Phase.writing.inj (Option.some.inj hsome)
      refine ⟨hleft, hlt, (cut newline (w.contents file)).tail ++ rest.take count, ?_, ?_, ?_⟩
      · rw [List.append_assoc, List.take_append_drop, hline]
      · intro _
        rw [put_self, cut_append_free (part_free hreads hline hleft)]
      · intro hnot
        rw [put_self, if_neg hleft] at hnot
        exact absurd rfl hnot
  · obtain ⟨hleft, hplace, written, hfound, hheld, hstarts⟩ :=
      hw.writing other found place left hold
    refine ⟨hleft, hplace, written, hfound, ?_, ?_⟩
    · intro hlocked
      rcases put_some hlocked with ⟨_, hsome⟩ | ⟨hfile, hlocked⟩
      · split at hsome
        · cases hsome
        · exact absurd (Option.some.inj hsome).symm hwriter
      · rw [put_of_ne _ _ hfile]
        exact hheld hlocked
    · intro hnot
      refine hstarts ?_
      intro hlocked
      by_cases hfile : place = file
      · rw [hfile] at hlocked
        rcases hlock with hnone | hsome
        · rw [hnone] at hlocked
          cases hlocked
        · rw [hsome] at hlocked
          exact hwriter (Option.some.inj hlocked).symm
      · rw [put_of_ne _ _ hfile] at hnot
        exact hnot hlocked

theorem Kept.free_wrote (hw : Kept c opts w)
    (hwriting : w.writers writer = some (.writing event file rest))
    (hlock : w.lock file = none ∨ w.lock file = some writer) :
    ∀ other, (writeBytes c opts w writer count event file rest).lock other = none →
      (cut newline ((writeBytes c opts w writer count event file rest).contents other)).tail =
        [] := by
  obtain ⟨hne, _⟩ := hw.writing writer event file rest hwriting
  have hreads := hw.reads writer _ hwriting
  have hline := hw.written hwriting hlock
  intro other hfree
  show (cut newline (put w.contents file (w.contents file ++ rest.take count) other)).tail = []
  have hfree : put w.lock file (if rest.drop count = [] then none else some writer) other = none :=
    hfree
  by_cases hother : other = file
  · rw [hother, put_self] at hfree
    rw [hother, put_self]
    by_cases hleft : rest.drop count = []
    · obtain ⟨more, htake, -, hmore⟩ := part_ends hreads hline hne hleft
      rw [htake]
      exact (cut_append_line hmore).2
    · rw [if_neg hleft] at hfree
      cases hfree
  · rw [put_of_ne _ _ hother] at hfree ⊢
    exact hw.free other hfree

/-- What was awaited still is, and so is the event when its line ends in sight. -/
theorem Kept.awaited_wrote (hw : Kept c opts w)
    (hwriting : w.writers writer = some (.writing event file rest))
    (hlock : w.lock file = none ∨ w.lock file = some writer)
    (hends : rest.drop count = [] → EndsInSight c opts w event file) :
    ∀ e ∈ (writeBytes c opts w writer count event file rest).expected, selects opts e = true →
      Awaited c opts (writeBytes c opts w writer count event file rest) e := by
  have hpending : pending c (writeBytes c opts w writer count event file rest) file =
      pending c w file ++ if rest.drop count = [] then [event] else [] :=
    hw.pending_wrote hwriting hlock
  have hstill : ∀ other e, e ∈ pending c w other →
      e ∈ pending c (writeBytes c opts w writer count event file rest) other := by
    intro other e he
    by_cases heq : other = file
    · rw [heq] at he ⊢
      rw [hpending]
      exact List.mem_append_left _ he
    · rw [pending, unread_other heq]
      exact he
  intro e he hselects
  have hold : e ∈ w.expected → Awaited c opts (writeBytes c opts w writer count event file rest) e := by
    intro hexpected
    rcases hw.awaited e hexpected hselects with hdelivered | ⟨⟨other, hsight, hin⟩, hage⟩
    · exact Or.inl hdelivered
    · exact Or.inr ⟨⟨other, hsight, hstill other e hin⟩, hage⟩
  have he : e ∈ if rest.drop count = [] ∧ isPast c opts w = true then w.expected ++ [event]
      else w.expected := he
  split at he
  · rename_i hdone
    rcases List.mem_append.mp he with hexpected | hnew
    · exact hold hexpected
    · obtain rfl := List.mem_singleton.mp hnew
      obtain ⟨hsight, hage⟩ := hends hdone.1 hdone.2 hselects
      refine Or.inr ⟨⟨file, hsight, ?_⟩, hage⟩
      rw [hpending, if_pos hdone.1]
      exact List.mem_append_right _ (List.mem_singleton.mpr rfl)
  · exact hold he

theorem Kept.wrote (hw : Kept c opts w)
    (hwriting : w.writers writer = some (.writing event file rest))
    (hlock : w.lock file = none ∨ w.lock file = some writer)
    (hends : rest.drop count = [] → EndsInSight c opts w event file) :
    Kept c opts (writeBytes c opts w writer count event file rest) := by
  obtain ⟨_, hlt, _⟩ := hw.writing writer event file rest hwriting
  have hreads := hw.reads writer _ hwriting
  refine ⟨?_, ?_, hw.known, hw.positioned, hw.writing_wrote hwriting hlock, ?_,
    hw.free_wrote hwriting hlock, ?_, ?_, hw.awaited_wrote hwriting hlock hends⟩
  · intro other phase hput
    rcases put_some hput with ⟨_, hsome⟩ | ⟨_, hold⟩
    · split at hsome
      · cases hsome
      · rw [← Option.some.inj hsome]
        exact hreads
    · exact hw.reads other phase hold
  · intro other hle
    have hother : other ≠ file := by
      have hle' : w.next ≤ other := hle
      omega
    obtain ⟨hcontents, hseen, hfree⟩ := hw.fresh other hle
    refine ⟨?_, hseen, ?_⟩
    · show put w.contents file _ other = []
      rw [put_of_ne _ _ hother, hcontents]
    · show put w.lock file _ other = none
      rw [put_of_ne _ _ hother, hfree]
  · intro other holder hlocked
    show ∃ found left, put w.writers writer _ holder = some (.writing found other left)
    rcases put_some hlocked with ⟨rfl, hsome⟩ | ⟨hfile, hlocked⟩
    · split at hsome
      · cases hsome
      · rename_i hleft
        obtain rfl := Option.some.inj hsome
        exact ⟨event, rest.drop count, by rw [put_self, if_neg hleft]⟩
    · obtain ⟨found, left, hholder⟩ := hw.held other holder hlocked
      have hwriter : holder ≠ writer := by
        intro heq
        rw [heq, hwriting] at hholder
        obtain ⟨_, hplace, _⟩ := Phase.writing.inj (Option.some.inj hholder)
        exact hfile hplace.symm
      exact ⟨found, left, by rw [put_of_ne _ _ hwriter, hholder]⟩
  · intro other
    obtain ⟨hle, hwhole⟩ := hw.whole other
    show w.seen other ≤ (put w.contents file (w.contents file ++ rest.take count) other).length ∧
      (cut newline ((put w.contents file (w.contents file ++ rest.take count) other).take
        (w.seen other))).tail = []
    by_cases hother : other = file
    · rw [hother] at hle hwhole ⊢
      have hlength : w.size file = (w.contents file).length := rfl
      rw [put_self, List.length_append, List.take_append_of_le_length hle]
      exact ⟨by omega, hwhole⟩
    · rw [put_of_ne _ _ hother]
      exact ⟨hle, hwhole⟩
  · intro tail hreader
    have hplaced := hw.placed tail hreader
    refine ⟨hplaced.carry, hplaced.reset, ?_, hplaced.away, hplaced.free⟩
    intro other hcurrent hposition
    obtain ⟨hoffset, hroom, hcarry⟩ := hplaced.here other hcurrent hposition
    refine ⟨hoffset, ?_, ?_⟩
    · show tail.offset ≤ (put w.contents file (w.contents file ++ rest.take count) other).length
      by_cases hother : other = file
      · have hlength : w.size other = (w.contents file).length := by rw [hother]; rfl
        rw [hother, put_self, List.length_append]
        omega
      · rw [put_of_ne _ _ hother]
        exact hroom
    · by_cases hother : other = file
      · rw [hother] at hoffset hroom hcarry ⊢
        have hlength : (unread w file).length = w.size file - w.seen file := by
          simp [unread, World.size]
        rw [unread_wrote (hw.whole file).1, List.take_append_of_le_length (by omega)]
        exact hcarry
      · rw [unread_other hother]
        exact hcarry

end

end

end Ccmux.Events.Feed
