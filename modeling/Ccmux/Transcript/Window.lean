/- Module: Ccmux/Transcript/Window
   source: src/agent/transcript/transcriptRead.ts (readTranscriptFile),
     src/context/transcriptWindow.ts (nativeTranscriptWindow)
   digest: The windows of a transcript file and of a native conversation, and what following their
     cursors visits while they grow. -/

import Ccmux.Transcript.Range

namespace Ccmux.Transcript.Window

open Ccmux.Lib.Lines
open Ccmux.Lib.Machine
open Ccmux.Transcript.Index
open Ccmux.Transcript.Normalize
open Ccmux.Transcript.Range
open Ccmux.Transcript.Scan

structure WindowOptions where
  tail : Int
  cursor : Option Int
  before : Option Int
  limit : Option Int
  deriving DecidableEq, Repr

/-- A window: its lines with their absolute numbers, before they are parsed into messages. -/
structure TranscriptRead (α : Type) where
  totalLines : Nat
  lines : List (α × Nat)
  firstLine : Int
  reachedStart : Bool
  deriving DecidableEq, Repr

/-- A call of the index and a window of it; the file may have grown by `later` before the window is
read. -/
def readTranscriptFile (b : Builtins) (w : World) (pass : Pass) (later : List UInt8)
    (opts : WindowOptions) : TranscriptRead String :=
  let index := (advanced b w pass).1
  let total : Int := index.lines
  let (start, endLine) : Int × Option Int :=
    match opts.before with
    | some before => (before - opts.limit.getD opts.tail, some (before - 1))
    | none =>
      match opts.cursor with
      | some cursor => (cursor + 1, none)
      | none => (if opts.tail < total then total - opts.tail + 1 else 1, none)
  let start := max 1 start
  let window := readRange b (w.content ++ later) index start (endLine.getD total)
  { totalLines := index.lines
    lines := window.zipIdx start.toNat
    firstLine := start
    reachedStart := decide (start ≤ 1) }

/-- The same of a conversation that is held as a whole; an index past its end is passed over. -/
def nativeTranscriptWindow {α : Type} (entries : List α) (window : WindowOptions) :
    TranscriptRead α :=
  let total : Int := entries.length
  let (start, stop) : Int × Option Int :=
    match window.before with
    | some before => (before - window.limit.getD window.tail, some (before - 1))
    | none =>
      match window.cursor with
      | some cursor => (cursor + 1, none)
      | none => (if window.tail < total then total - window.tail + 1 else 1, none)
  let start := max 1 start
  let indices := List.range' (start - 1).toNat (stop.getD total - (start - 1)).toNat
  { totalLines := entries.length
    lines := indices.filterMap fun index => entries[index]?.map fun entry => (entry, index + 1)
    firstLine := start
    reachedStart := decide (start ≤ 1) }

section
variable {α : Type}

/-- Each answer is asked for what came after the one before it. -/
def followForward (answer : Nat → WindowOptions → TranscriptRead α) (tail : Int) :
    Nat → Nat → Int → List (TranscriptRead α)
  | 0, _, _ => []
  | count + 1, time, cursor =>
    let page := answer time ⟨tail, some cursor, none, none⟩
    page :: followForward answer tail count (time + 1) page.totalLines

/-- Each answer is asked for what is before the one before it, until one reaches the start. -/
def followBackward (answer : Nat → WindowOptions → TranscriptRead α) (tail : Int)
    (limit : Nat → Int) : Nat → Nat → Int → Option (List (TranscriptRead α))
  | 0, _, _ => none
  | fuel + 1, time, before =>
    let page := answer time ⟨tail, none, some before, some (limit time)⟩
    if page.reachedStart then some [page]
    else (followBackward answer tail limit fuel (time + 1) page.firstLine).map (page :: ·)

theorem filterMap_range' (entries : List α) (start count : Nat) :
    ((List.range' start count).filterMap fun index =>
      entries[index]?.map fun entry => (entry, index + 1)) =
      ((entries.drop start).take count).zipIdx (start + 1) := by
  induction count generalizing start with
  | zero => simp
  | succ count ih =>
    rw [List.range'_succ, List.filterMap_cons, ih]
    by_cases h : start < entries.length
    · rw [List.getElem?_eq_getElem h, List.drop_eq_getElem_cons h, List.take_succ_cons,
        List.zipIdx_cons]
      rfl
    · have hnone : entries.drop start = [] := List.drop_eq_nil_of_le (by omega)
      have hmore : entries.drop (start + 1) = [] := List.drop_eq_nil_of_le (by omega)
      rw [List.getElem?_eq_none (by omega), hnone, hmore]
      simp

theorem window_lines (entries : List α) {start : Int} (hstart : 1 ≤ start) (stop : Int) :
    ((List.range' (start - 1).toNat (stop - (start - 1)).toNat).filterMap fun index =>
      entries[index]?.map fun entry => (entry, index + 1)) =
      (linesBetween entries start stop).zipIdx start.toNat := by
  have hmax : max 1 start = start := max_eq_right hstart
  have hfirst : (start - 1).toNat = start.toNat - 1 := by omega
  have hcount : (stop - (start - 1)).toNat = stop.toNat + 1 - start.toNat := by omega
  have hnumber : start.toNat - 1 + 1 = start.toNat := by omega
  rw [filterMap_range', linesBetween, hmax, hfirst, hcount, hnumber]

theorem window_slice (entries : List α) {first : Nat} (hfirst : 1 ≤ first) (stop : Int) :
    ((List.range' ((first : Int) - 1).toNat (stop - ((first : Int) - 1)).toNat).filterMap
      fun index => entries[index]?.map fun entry => (entry, index + 1)) =
      ((entries.drop (first - 1)).take (stop.toNat + 1 - first)).zipIdx first := by
  have hmax : (max 1 (first : Int)).toNat = first := by omega
  rw [window_lines entries (by omega) stop, linesBetween, hmax, Int.toNat_natCast]

theorem native_cursor (entries : List α) (tail : Int) (seen : Nat) :
    let page := nativeTranscriptWindow entries ⟨tail, some seen, none, none⟩
    page.lines = (entries.drop seen).zipIdx (seen + 1) ∧ page.totalLines = entries.length := by
  refine ⟨?_, rfl⟩
  have hstart : max 1 ((seen : Int) + 1) = (seen + 1 : Nat) := by omega
  simp only [nativeTranscriptWindow, Option.getD_none, hstart]
  rw [window_slice entries (by omega), Nat.add_sub_cancel]
  rw [List.take_of_length_le (by rw [List.length_drop]; omega)]

theorem native_before (entries : List α) (tail : Int) {line : Nat} {limit : Int}
    (hline : 1 ≤ line) (hlimit : 1 ≤ limit) :
    ∃ first : Nat, 1 ≤ first ∧ first ≤ line ∧ (1 < first → first < line) ∧
      nativeTranscriptWindow entries ⟨tail, none, some line, some limit⟩ =
        ⟨entries.length, ((entries.drop (first - 1)).take (line - first)).zipIdx first, first,
          decide (first ≤ 1)⟩ := by
  obtain ⟨first, hstart⟩ := Int.eq_ofNat_of_zero_le (a := max 1 ((line : Int) - limit)) (by omega)
  refine ⟨first, by omega, by omega, by omega, ?_⟩
  have hfirst : 1 ≤ first := by omega
  have hcount : ((line : Int) - 1).toNat + 1 - first = line - first := by omega
  simp only [nativeTranscriptWindow, Option.getD_some, hstart]
  rw [window_slice entries hfirst, hcount]
  simp

theorem native_tail (entries : List α) {tail : Int} (htail : 1 ≤ tail) :
    ∃ first : Nat, 1 ≤ first ∧ first ≤ entries.length + 1 ∧
      nativeTranscriptWindow entries ⟨tail, none, none, none⟩ =
        ⟨entries.length, (entries.drop (first - 1)).zipIdx first, first,
          decide (first ≤ 1)⟩ := by
  obtain ⟨first, hstart⟩ := Int.eq_ofNat_of_zero_le
    (a := max 1 (if tail < entries.length then (entries.length : Int) - tail + 1 else 1))
    (by omega)
  refine ⟨first, by omega, by split at hstart <;> omega, ?_⟩
  have hfirst : 1 ≤ first := by omega
  simp only [nativeTranscriptWindow, Option.getD_none, hstart]
  rw [window_slice entries hfirst, List.take_of_length_le (by rw [List.length_drop]; omega)]
  simp

/-- The native window of a conversation that grows. -/
def nativeAnswer (history : Nat → List α) (time : Nat) (opts : WindowOptions) : TranscriptRead α :=
  nativeTranscriptWindow (history time) opts

variable {history : Nat → List α}

theorem grown (hgrows : ∀ t, history t <+: history (t + 1))
    {early late : Nat} (h : early ≤ late) : history early <+: history late := by
  induction h with
  | refl => exact List.prefix_refl _
  | step _ ih => exact ih.trans (hgrows _)

theorem zipIdx_split {early late : List α} (h : early <+: late) {seen first : Nat}
    (hseen : seen ≤ early.length) :
    (early.drop seen).zipIdx first ++
        (late.drop early.length).zipIdx (first + (early.length - seen)) =
      (late.drop seen).zipIdx first := by
  obtain ⟨rest, rfl⟩ := h
  rw [List.drop_left, List.drop_append_of_le_length hseen, List.zipIdx_append, List.length_drop]

theorem followForward_visits (hgrows : ∀ t, history t <+: history (t + 1))
    (tail : Int) (count time seen : Nat) (hseen : seen ≤ (history time).length) :
    (followForward (nativeAnswer history) tail (count + 1) time seen).flatMap TranscriptRead.lines =
      ((history (time + count)).drop seen).zipIdx (seen + 1) := by
  induction count generalizing time seen with
  | zero =>
    obtain ⟨hlines, _⟩ := native_cursor (history time) tail seen
    rw [followForward, followForward, List.flatMap_singleton]
    exact hlines
  | succ count ih =>
    obtain ⟨hlines, htotal⟩ := native_cursor (history time) tail seen
    have hnext := ih (time + 1) (history time).length (hgrows time).length_le
    have hjoin := @zipIdx_split _ _ _ (grown hgrows (Nat.le_add_right time (count + 1))) seen
      (seen + 1) hseen
    have hplace : seen + 1 + ((history time).length - seen) = (history time).length + 1 := by
      omega
    have htime : time + 1 + count = time + (count + 1) := by omega
    rw [followForward, List.flatMap_cons]
    show (nativeTranscriptWindow (history time) ⟨tail, some seen, none, none⟩).lines ++
      (followForward (nativeAnswer history) tail (count + 1) (time + 1)
        ((nativeTranscriptWindow (history time) ⟨tail, some seen, none, none⟩).totalLines : Int)
        ).flatMap TranscriptRead.lines = _
    rw [hlines, htotal, hnext, htime, ← hjoin, hplace]

/-- Following backward from a line visits each line before it once, and comes to the start. -/
theorem followBackward_visits (hgrows : ∀ t, history t <+: history (t + 1)) (tail : Int)
    {limit : Nat → Int}
    (hlimit : ∀ t, 1 ≤ limit t) {fuel time line : Nat} (hline : 1 ≤ line) (hfuel : line ≤ fuel)
    (hlength : line ≤ (history time).length + 1) :
    ∃ pages, followBackward (nativeAnswer history) tail limit fuel time line = some pages ∧
      pages.reverse.flatMap TranscriptRead.lines = ((history time).take (line - 1)).zipIdx 1 := by
  induction fuel generalizing time line with
  | zero => omega
  | succ fuel ih =>
    obtain ⟨first, hfirst, hle, hmoved, hpage⟩ :=
      native_before (history time) tail hline (hlimit time)
    have hanswer : nativeAnswer history time ⟨tail, none, some line, some (limit time)⟩ = _ := hpage
    rw [followBackward, hanswer]
    dsimp only
    by_cases hstart : first ≤ 1
    · obtain rfl : first = 1 := by omega
      refine ⟨_, if_pos (decide_eq_true hstart), ?_⟩
      rw [List.reverse_singleton, List.flatMap_singleton]
      simp
    · have hbound := (hgrows time).length_le
      have hnext : first ≤ (history (time + 1)).length + 1 := by omega
      obtain ⟨pages, hpages, hvisits⟩ := ih hfirst (by omega) hnext
      have hsame : (history (time + 1)).take (first - 1) = (history time).take (first - 1) := by
        obtain ⟨rest, hrest⟩ := hgrows time
        rw [← hrest, List.take_append_of_le_length (by omega)]
      rw [if_neg (by simpa using hstart), hpages]
      refine ⟨_, rfl, ?_⟩
      have hsplit : (history time).take (line - 1) = (history time).take (first - 1) ++
          ((history time).drop (first - 1)).take (line - first) := by
        have hsum : line - 1 = first - 1 + (line - first) := by omega
        rw [hsum, List.take_add]
      have hplace : 1 + ((history time).take (first - 1)).length = first := by
        rw [List.length_take]
        omega
      rw [List.reverse_cons, List.flatMap_append, hvisits, hsame, List.flatMap_singleton, hsplit,
        List.zipIdx_append, hplace]

/-- From the newest window the cursors lead backward to the start and forward with what comes, and
together visit every line once and in order; so do the cursors forward from line 0. -/
def VisitsOnce (answer : Nat → WindowOptions → TranscriptRead α) (history : Nat → List α)
    (tail : Int) (limit : Nat → Int) : Prop :=
  let newest := answer 0 ⟨tail, none, none, none⟩
  (∃ older,
    (newest.reachedStart = true ∧ older = [] ∨
      newest.reachedStart = false ∧
        ∃ fuel, followBackward answer tail limit fuel 1 newest.firstLine = some older) ∧
    ∀ count, older.reverse.flatMap TranscriptRead.lines ++ newest.lines ++
        (followForward answer tail count 1 newest.totalLines).flatMap TranscriptRead.lines =
      (history count).zipIdx 1) ∧
  ∀ count, (followForward answer tail (count + 1) 0 0).flatMap TranscriptRead.lines =
    (history count).zipIdx 1

theorem followForward_newest (hgrows : ∀ t, history t <+: history (t + 1)) (tail : Int)
    (count : Nat) :
    (followForward (nativeAnswer history) tail count 1 (history 0).length).flatMap
        TranscriptRead.lines =
      ((history count).drop (history 0).length).zipIdx ((history 0).length + 1) := by
  cases count with
  | zero =>
    rw [followForward, List.drop_length]
    rfl
  | succ count =>
    rw [followForward_visits hgrows tail count 1 _ (hgrows 0).length_le, Nat.add_comm]

theorem native_visits (hgrows : ∀ t, history t <+: history (t + 1))
    {tail : Int} (htail : 1 ≤ tail) {limit : Nat → Int} (hlimit : ∀ t, 1 ≤ limit t) :
    VisitsOnce (nativeAnswer history) history tail limit := by
  refine ⟨?_, ?_⟩
  · obtain ⟨first, hfirst, hle, hnewest⟩ := native_tail (history 0) htail
    have hanswer : nativeAnswer history 0 ⟨tail, none, none, none⟩ = _ := hnewest
    rw [hanswer]
    dsimp only
    have hforward : ∀ count, ((history 0).drop (first - 1)).zipIdx first ++
        (followForward (nativeAnswer history) tail count 1 (history 0).length).flatMap
          TranscriptRead.lines = ((history count).drop (first - 1)).zipIdx first := by
      intro count
      have hseen : first - 1 ≤ (history 0).length := by omega
      have hplace : first + ((history 0).length - (first - 1)) = (history 0).length + 1 := by omega
      have hjoin := @zipIdx_split _ _ _ (grown hgrows (Nat.zero_le count)) _ first hseen
      rw [followForward_newest hgrows, ← hjoin, hplace]
    by_cases hstart : first ≤ 1
    · obtain rfl : first = 1 := by omega
      refine ⟨[], Or.inl ⟨decide_eq_true hstart, rfl⟩, ?_⟩
      intro count
      exact hforward count
    · have hlength : first ≤ (history 1).length + 1 := by
        have hbound : (history 0).length ≤ (history 1).length := (hgrows 0).length_le
        omega
      obtain ⟨older, holder, hvisits⟩ :=
        followBackward_visits hgrows tail hlimit hfirst (Nat.le_refl first) hlength
      refine ⟨older, Or.inr ⟨decide_eq_false (by omega), first, holder⟩, ?_⟩
      intro count
      have hsame : (history 1).take (first - 1) = (history count).take (first - 1) := by
        obtain ⟨rest, hrest⟩ := grown hgrows (Nat.zero_le 1)
        obtain ⟨more, hmore⟩ := grown hgrows (Nat.zero_le count)
        rw [← hrest, ← hmore, List.take_append_of_le_length (by omega),
          List.take_append_of_le_length (by omega)]
      have hplace : 1 + ((history count).take (first - 1)).length = first := by
        have hbound := (grown hgrows (Nat.zero_le count)).length_le
        rw [List.length_take]
        omega
      have hwhole : ((history count).take (first - 1) ++
          (history count).drop (first - 1)).zipIdx 1 = _ := List.zipIdx_append
      rw [List.take_append_drop, hplace] at hwhole
      rw [List.append_assoc, hforward, hvisits, hsame, hwhole]
  · intro count
    have hvisits := followForward_visits hgrows tail count 0 0 (Nat.zero_le _)
    rw [Nat.zero_add] at hvisits
    exact hvisits

theorem linesBetween_map {β : Type} (f : α → β) (lines : List α) (lo hi : Int) :
    linesBetween (lines.map f) lo hi = (linesBetween lines lo hi).map f := by
  unfold linesBetween
  rw [← List.map_drop, ← List.map_take]

end

section
variable (b : Builtins)

/-- The texts of the whole lines of some bytes. -/
def wholeLines (content : List UInt8) : List String := (cut newline content).raws.map b.utf8

variable {b}

variable {events : List Event} {w : World}

theorem call_lines (hrun : run (Index.step b) World.empty events = some w) (pass : Pass) :
    (advanced b w pass).1.lines = (wholeLines b (w.content.take (stopOf b w pass))).length := by
  have hplaced : Placed b w := run_invariant (fun _ _ _ h hstep => h.step hstep) hrun placed_empty
  have hplaces := (hplaced.call pass).1
  rw [places_cut] at hplaces
  rw [wholeLines, List.length_map]
  exact congrArg Places.lines hplaces

theorem reader_window (hrun : run (Index.step b) World.empty events = some w) (pass : Pass)
    (later : List UInt8)
    (opts : WindowOptions) :
    readTranscriptFile b w pass later opts =
      nativeTranscriptWindow (wholeLines b (w.content.take (stopOf b w pass))) opts := by
  have hlines := call_lines hrun pass
  have hread : ∀ lo hi, readRange b (w.content ++ later) (advanced b w pass).1 lo hi =
      linesBetween (wholeLines b (w.content.take (stopOf b w pass))) lo hi := by
    intro lo hi
    rw [readRange_call hrun pass later lo hi, wholeLines, linesBetween_map]
  unfold readTranscriptFile nativeTranscriptWindow
  simp only [hlines, hread, window_lines _ (le_max_left 1 _)]

theorem wholeLines_append (content more : List UInt8) :
    wholeLines b content <+: wholeLines b (content ++ more) := by
  obtain ⟨lines, hlines, _⟩ := @cut_lines_append _ _ newline content more
  unfold wholeLines Cut.raws
  rw [hlines, List.map_append, List.map_append]
  exact List.prefix_append _ _

theorem readRange_lines (hrun : run (Index.step b) World.empty events = some w) (pass : Pass)
    (later : List UInt8)
    (lo hi : Int) :
    readRange b (w.content ++ later) (advanced b w pass).1 lo hi =
      linesBetween ((wholeLines b (w.content ++ later)).take (advanced b w pass).1.lines)
        lo hi := by
  have hcontent : w.content ++ later =
      w.content.take (stopOf b w pass) ++ (w.content.drop (stopOf b w pass) ++ later) := by
    rw [← List.append_assoc, List.take_append_drop]
  have hprefix := wholeLines_append (b := b) (w.content.take (stopOf b w pass))
    (w.content.drop (stopOf b w pass) ++ later)
  rw [← hcontent] at hprefix
  rw [readRange_call hrun pass later lo hi, call_lines hrun pass,
    ← List.prefix_iff_eq_take.mp hprefix, wholeLines, linesBetween_map]

theorem stopOf_whole {pass : Pass} (h : w.content.length ≤ pass.maxBytes) :
    stopOf b w pass = w.content.length := by
  unfold stopOf
  omega

variable (b) in
/-- Windows read one after another of a transcript that only grows, with calls of any reader between
them. -/
structure Reads where
  world : Nat → World
  pass : Nat → Pass
  later : Nat → List UInt8
  reached : ∃ events, run (Index.step b) World.empty events = some (world 0)
  grows : ∀ t, ∃ events, run (Index.step b) (world t) events = some (world (t + 1))
  whole : ∀ t, (world t).content.length ≤ (pass t).maxBytes

def Reads.lines (r : Reads b) (t : Nat) : List String := wholeLines b (r.world t).content

def Reads.answer (r : Reads b) (t : Nat) (opts : WindowOptions) : TranscriptRead String :=
  readTranscriptFile b (r.world t) (r.pass t) (r.later t) opts

theorem Reads.reachable (r : Reads b) (t : Nat) :
    ∃ events, run (Index.step b) World.empty events = some (r.world t) := by
  induction t with
  | zero => exact r.reached
  | succ t ih =>
    obtain ⟨early, hearly⟩ := ih
    obtain ⟨more, hmore⟩ := r.grows t
    exact ⟨early ++ more, run_append hearly hmore⟩

theorem run_content {next : World} (hrun : run (Index.step b) w events = some next) :
    w.content <+: next.content := by
  refine run_invariant (P := fun s : World => w.content <+: s.content) ?_ hrun (List.prefix_refl _)
  intro s event t h hstep
  cases event with
  | append bytes =>
    obtain rfl := Option.some.inj hstep
    exact h.trans (List.prefix_append _ _)
  | index pass =>
    obtain rfl := Option.some.inj hstep
    exact h
  | refused pass =>
    obtain rfl := Option.some.inj hstep
    exact h

theorem Reads.lines_grow (r : Reads b) (t : Nat) : r.lines t <+: r.lines (t + 1) := by
  obtain ⟨events, hrun⟩ := r.grows t
  obtain ⟨more, hmore⟩ := run_content hrun
  unfold Reads.lines
  rw [← hmore]
  exact wholeLines_append _ _

theorem Reads.answer_eq (r : Reads b) : r.answer = nativeAnswer r.lines := by
  funext t opts
  obtain ⟨events, hrun⟩ := r.reachable t
  have hstop := stopOf_whole (b := b) (r.whole t)
  unfold Reads.answer
  rw [reader_window hrun (r.pass t) (r.later t) opts, hstop, List.take_length]
  rfl

/-- What the ranges and the windows of a growing transcript are, and what following their cursors
visits; a conversation that is held as a whole has the same windows. -/
theorem transcript_windows (b : Builtins) (tail : Int) (htail : 1 ≤ tail) (limit : Nat → Int)
    (hlimit : ∀ t, 1 ≤ limit t) :
    (∀ events w, run (Index.step b) World.empty events = some w → ∀ pass later lo hi,
      readRange b (w.content ++ later) (advanced b w pass).1 lo hi =
          linesBetween ((wholeLines b (w.content ++ later)).take (advanced b w pass).1.lines)
            lo hi ∧
        (w.content.length ≤ pass.maxBytes →
          (advanced b w pass).1.lines = (wholeLines b w.content).length)) ∧
    (∀ events w, run (Index.step b) World.empty events = some w → ∀ pass later opts,
      w.content.length ≤ pass.maxBytes → readTranscriptFile b w pass later opts =
        nativeTranscriptWindow (wholeLines b w.content) opts) ∧
    (∀ r : Reads b, VisitsOnce r.answer r.lines tail limit) ∧
    ∀ (α : Type) (history : Nat → List α), (∀ t, history t <+: history (t + 1)) →
      VisitsOnce (nativeAnswer history) history tail limit := by
  refine ⟨?_, ?_, ?_, ?_⟩
  · intro events w hrun pass later lo hi
    refine ⟨readRange_lines hrun pass later lo hi, ?_⟩
    intro hwhole
    rw [call_lines hrun pass, stopOf_whole hwhole, List.take_length]
  · intro events w hrun pass later opts hwhole
    rw [reader_window hrun pass later opts, stopOf_whole hwhole, List.take_length]
  · intro r
    rw [r.answer_eq]
    exact native_visits r.lines_grow htail hlimit
  · intro α history hgrows
    exact native_visits hgrows htail hlimit

end

/-- A transcript that stays as it is, read again and again. -/
def stillReads : Reads (asciiBuiltins 5) where
  world _ := ⟨asciiBytes "a\nb\nc\n", none, []⟩
  pass _ := wholePass
  later _ := []
  reached := ⟨[.append (asciiBytes "a\nb\nc\n")], rfl⟩
  grows _ := ⟨[], rfl⟩
  whole _ := by decide

theorem transcript_windows_still :
    VisitsOnce stillReads.answer stillReads.lines 2 (fun _ => 1) := by
  have hwindows := transcript_windows (asciiBuiltins 5) 2 (by omega) (fun _ => 1)
    (fun _ => by omega)
  exact hwindows.2.2.1 stillReads

/-- The first line of two is read by a call of two bytes. -/
def slicePass : Pass := { wholePass with maxBytes := 2 }

/-- A slice of the index does not have the lines after it, and its range does not read them. -/
theorem sliced_range_is_short :
    ¬ ∀ (b : Builtins) (events : List Event) (w : World) (pass : Pass) (lo hi : Int),
      run (Index.step b) World.empty events = some w →
        readRange b w.content (advanced b w pass).1 lo hi =
          linesBetween (wholeLines b w.content) lo hi := by
  intro h
  have hrun : run (Index.step (asciiBuiltins 5)) World.empty [.append (asciiBytes "a\nb\n")] =
      some ⟨asciiBytes "a\nb\n", none, []⟩ := rfl
  have hsame := h (asciiBuiltins 5) _ _ slicePass 1 2 hrun
  have hread := readRange_call hrun slicePass [] 1 2
  rw [List.append_nil, hsame] at hread
  have hlength := congrArg List.length hread
  exact absurd hlength (by decide)

end Ccmux.Transcript.Window
