/- Module: Ccmux/Agent/Codex/Cursor
   source: src/agent/codex/owned/cursor.ts, src/agent/codex/owned/schema.ts,
     src/agent/codex/owned/projection.ts
   digest: A reader that polls the snapshots of a session: every event once and in order, or a new
     baseline. -/

import Ccmux.Agent.Codex.RequestsRun
import Ccmux.Lib.Machine
import Mathlib

namespace Ccmux.Agent.Codex.Cursor

open Ccmux.Agent.Codex.Owned
open Ccmux.Lib.Machine
open Ccmux.Lib.Window

/-- `OwnedCodexSnapshot`: what a connection publishes, under its generation. -/
structure OwnedCodexSnapshot where
  generation : String
  shown : Projection
  deriving DecidableEq, Repr

inductive ReadStatus where
  | live | stale | unavailable
  deriving DecidableEq, Repr

structure OwnedCodexRead where
  status : ReadStatus
  snapshot : Option OwnedCodexSnapshot
  deriving DecidableEq, Repr

structure CodexRuntimeCursor where
  generation : String
  sequence : Nat
  deriving DecidableEq, Repr

inductive Reset where
  | unavailable | initial | generation | gap
  deriving DecidableEq, Repr

structure Updates where
  read : OwnedCodexRead
  cursor : Option CodexRuntimeCursor
  reset : Option Reset
  events : List NativeEvent
  deriving DecidableEq, Repr

/-- The number of the first event of the window; of an empty one, the number of the next event. -/
def firstSequence (p : Projection) : Nat := (p.events.head?.map (·.sequence)).getD (p.sequence + 1)

def resetOf (snapshot : OwnedCodexSnapshot) : Option CodexRuntimeCursor → Option Reset
  | none => some .initial
  | some cursor =>
    if cursor.generation ≠ snapshot.generation then some .generation
    else if snapshot.shown.sequence < cursor.sequence ∨
        cursor.sequence + 1 < firstSequence snapshot.shown then some .gap
    else none

/-- Each bounded snapshot is a baseline plus an event window. -/
def codexRuntimeUpdates (read : OwnedCodexRead) (cursor : Option CodexRuntimeCursor) : Updates :=
  match read.status, read.snapshot with
  | .live, some snapshot =>
    let reset := resetOf snapshot cursor
    { read
      cursor := some ⟨snapshot.generation, snapshot.shown.sequence⟩
      reset
      events :=
        if reset = none then
          snapshot.shown.events.filter fun event =>
            decide ((cursor.map (·.sequence)).getD 0 < event.sequence)
        else [] }
  | _, _ => { read, cursor := none, reset := some .unavailable, events := [] }

/-! ### A session and its reader -/

/-- The cursor of the last answer, the number of the event the reader's baseline ends with, and the
events handed over since. -/
structure Reader where
  cursor : Option CodexRuntimeCursor := none
  baseline : Nat := 0
  received : List NativeEvent := []
  deriving DecidableEq, Repr

/-- The reader takes a snapshot as its baseline at a reset, and appends the events otherwise; it
keeps its cursor over an unavailable read. -/
def Reader.take (r : Reader) (answer : Updates) : Reader :=
  match answer.cursor, answer.reset with
  | none, _ => r
  | some cursor, some _ => ⟨some cursor, cursor.sequence, []⟩
  | some cursor, none => { r with cursor := some cursor, received := r.received ++ answer.events }

/-- The projection under its generation, the snapshots taken of it so far, the one in the status
file, and a reader. `log` keeps for the statement all events of each generation, and `used` the
generations there were. -/
structure World where
  generation : String
  shown : Projection
  taken : List OwnedCodexSnapshot := []
  published : Option OwnedCodexSnapshot := none
  reader : Reader := {}
  log : String → List NativeEvent := fun _ => []
  used : List String

def World.start (generation threadId : String) : World where
  generation
  shown := { threadId }
  used := [generation]

inductive Act where
  | call (c : Call)
  | restart (generation threadId : String)
  | snapshot
  | write (n : Nat)
  | poll (status : ReadStatus)
  deriving DecidableEq, Repr

/-- What a read makes of the status file. -/
def World.read (w : World) (status : ReadStatus) : OwnedCodexRead where
  status
  snapshot := if status = .unavailable then none else w.published

variable (b : Builtins)

/-- A generation is `randomUUID`, never used before; the status file gets some snapshot that was
taken, at any time. -/
def step (w : World) : Act → Option World
  | .call c =>
    let shown := call b w.shown c
    let news := shown.events.filter fun event => decide (w.shown.sequence < event.sequence)
    some { w with
      shown
      log := Function.update w.log w.generation (w.log w.generation ++ news) }
  | .restart generation threadId =>
    if generation ∈ w.used then none
    else some { w with generation, shown := { threadId }, used := generation :: w.used }
  | .snapshot => some { w with taken := w.taken ++ [⟨w.generation, w.shown⟩] }
  | .write n => some { w with published := (w.taken[n]?).or w.published }
  | .poll status =>
    some { w with reader := w.reader.take (codexRuntimeUpdates (w.read status) w.reader.cursor) }

/-! ### What a call adds to the events -/

section
variable {b : Builtins} {p q : Projection}

/-- The numbered events stay as they are. -/
def Quiet (p q : Projection) : Prop := q.sequence = p.sequence ∧ q.events = p.events

/-- At most one event is recorded, under the next number. -/
def Records (p q : Projection) : Prop :=
  Quiet p q ∨ ∃ e : NativeEvent, e.sequence = p.sequence + 1 ∧ q.sequence = p.sequence + 1 ∧
    q.events = keepLast maxEvents (p.events ++ [e])

theorem Records.refl (p : Projection) : Records p p := .inl ⟨rfl, rfl⟩

variable {r : Projection}

theorem Quiet.records (h : Quiet p q) (hmore : Records q r) : Records p r := by
  rcases hmore with ⟨hsequence, hevents⟩ | ⟨e, he, hsequence, hevents⟩
  · exact .inl ⟨hsequence.trans h.1, hevents.trans h.2⟩
  · rw [h.1] at he hsequence
    rw [h.2] at hevents
    exact .inr ⟨e, he, hsequence, hevents⟩

theorem Records.quiet (h : Records p q) (hquiet : Quiet q r) : Records p r := by
  rcases h with ⟨hsequence, hevents⟩ | ⟨e, he, hsequence, hevents⟩
  · exact .inl ⟨hquiet.1.trans hsequence, hquiet.2.trans hevents⟩
  · exact .inr ⟨e, he, hquiet.1.trans hsequence, hquiet.2.trans hevents⟩

theorem records_append (p : Projection) (kind : EventKind) : Records p (p.append kind) :=
  .inr ⟨{ sequence := p.sequence + 1, kind, state := p.state, turn := p.turn }, rfl, rfl,
    by simp only [Projection.append]⟩

theorem quiet_appendNative (p : Projection) (item : NativeItem) : Quiet p (appendNative b p item) :=
  ⟨rfl, rfl⟩

theorem records_applyStatus (p : Projection) (status : NativeStatus) :
    Records p (applyStatus p status) := by
  unfold applyStatus
  dsimp only
  split
  · exact Quiet.records ⟨rfl, rfl⟩ (records_append _ _)
  · exact .inl ⟨rfl, rfl⟩

theorem quiet_resolveRequest (p : Projection) (requestId : String) :
    Quiet p (resolveRequest b p requestId) := by
  unfold resolveRequest
  split <;> exact ⟨rfl, rfl⟩

theorem records_event (p : Projection) (e : CodexRpcEvent) : Records p (event b p e) := by
  unfold event
  split
  · exact Records.refl p
  · split
    · split
      · exact Records.refl p
      · exact Quiet.records ⟨rfl, rfl⟩ (records_applyStatus _ _)
    · split
      · exact Records.refl p
      · rename_i started threadId id status _ _
        have happlied : Records p (applyTurn p started id status) :=
          Quiet.records ⟨rfl, rfl⟩ (records_append _ _)
        dsimp only
        split
        · exact happlied
        · exact happlied.quiet (quiet_appendNative _ _)
    · split
      · exact Records.refl p
      · exact .inl (quiet_resolveRequest p _)
    · split
      · exact Records.refl p
      · exact .inl (quiet_appendNative _ _)
    · split
      · exact Records.refl p
      · exact .inl (quiet_appendNative _ _)
    · exact Records.refl p

theorem quiet_request (p : Projection) (r : CodexRpcRequest) : Quiet p (request b p r) := by
  unfold request
  split <;> exact ⟨rfl, rfl⟩

theorem quiet_receive (p : Projection) (r : CodexRpcRequest) : Quiet p (receive b p r) := by
  unfold receive
  split
  · exact ⟨rfl, rfl⟩
  · split
    · split
      · exact quiet_request p r
      · exact ⟨rfl, rfl⟩
    · exact quiet_request p r

theorem records_call (p : Projection) (c : Call) : Records p (call b p c) := by
  cases c with
  | event e =>
    rcases observe_eq_or (b := b) (p := p) e with h | h
    · simpa only [call, h] using records_event p e
    · simpa only [call, h] using Records.refl p
  | request r => exact .inl (quiet_receive p r)
  | submit requestId =>
    simp only [call, submitRequest]
    split <;> exact .inl ⟨rfl, rfl⟩
  | reconcile status revision =>
    simp only [call, reconcile]
    split
    · exact Records.refl p
    · exact records_applyStatus p status
  | restoreTurn turn =>
    simp only [call]
    split <;> exact .inl ⟨rfl, rfl⟩
  | selection selection =>
    simp only [call]
    split <;> exact .inl ⟨rfl, rfl⟩
  | unavailable reason => exact Quiet.records ⟨rfl, rfl⟩ (records_append _ _)

end

/-! ### The log behind a snapshot -/

/-- The snapshot is of the moment when the log had that many events, and holds the last of them. -/
structure WindowOf (log : List NativeEvent) (p : Projection) : Prop where
  le : p.sequence ≤ log.length
  events : p.events = keepLast maxEvents (log.take p.sequence)

section
variable {log more : List NativeEvent} {p : Projection}

theorem WindowOf.grow (h : WindowOf log p) : WindowOf (log ++ more) p := by
  refine ⟨h.le.trans ?_, ?_⟩
  · rw [List.length_append]
    exact Nat.le_add_right _ _
  · rw [List.take_append_of_le_length h.le]
    exact h.events

theorem WindowOf.isRun (h : WindowOf log p) (hnumbered : Numbered NativeEvent.sequence log) :
    IsRun NativeEvent.sequence p.sequence p.events := by
  rw [h.events]
  exact (hnumbered.take h.le).drop _

theorem WindowOf.firstSequence_eq (h : WindowOf log p) (hnumbered : Numbered NativeEvent.sequence log) :
    firstSequence p = p.sequence + 1 - p.events.length := by
  have hrun := h.isRun hnumbered
  unfold firstSequence
  cases hevents : p.events with
  | nil => simp
  | cons first rest =>
    rw [hevents] at hrun
    have hfirst := hrun.number_getElem (i := 0) (by simp)
    simpa using hfirst

theorem WindowOf.events_eq (h : WindowOf log p) :
    p.events = (log.take p.sequence).drop (p.sequence - maxEvents) ∧
      p.events.length = p.sequence - (p.sequence - maxEvents) := by
  have hlength : (log.take p.sequence).length = p.sequence := by
    rw [List.length_take, Nat.min_eq_left h.le]
  have hevents : p.events = (log.take p.sequence).drop (p.sequence - maxEvents) := by
    rw [h.events, keepLast, hlength]
  exact ⟨hevents, by rw [hevents, List.length_drop, hlength]⟩

theorem WindowOf.filter_eq (h : WindowOf log p) (hnumbered : Numbered NativeEvent.sequence log) {low : Nat}
    (hlow : low ≤ p.sequence) (hreach : p.sequence ≤ low + p.events.length) :
    p.events.filter (fun e => decide (low < e.sequence)) = between NativeEvent.sequence low p.sequence log := by
  obtain ⟨hevents, hlength⟩ := h.events_eq
  rw [(h.isRun hnumbered).filter_newer low, hnumbered.between_eq hlow h.le]
  obtain ⟨n, hn⟩ : ∃ n, n = p.events.length - (p.sequence - low) := ⟨_, rfl⟩
  rw [← hn, hevents, List.drop_drop]
  congr 1
  omega

theorem WindowOf.holds_iff (h : WindowOf log p) (hnumbered : Numbered NativeEvent.sequence log) {low : Nat}
    (hlow : low ≤ p.sequence) :
    (∀ e ∈ between NativeEvent.sequence low p.sequence log, e ∈ p.events) ↔ p.sequence ≤ low + p.events.length := by
  constructor
  · intro hall
    by_contra hshort
    have hle := h.le
    have hnext : low < log.length := by omega
    have hnumber := hnumbered.number_getElem hnext
    have hmem : log[low] ∈ between NativeEvent.sequence low p.sequence log := by
      refine List.mem_filter.mpr ⟨List.getElem_mem hnext, ?_⟩
      rw [hnumber, decide_eq_true_eq]
      omega
    have hbounds := (h.isRun hnumbered).mem_bounds (hall _ hmem)
    rw [hnumber] at hbounds
    omega
  · intro hreach e he
    rw [← h.filter_eq hnumbered hlow hreach] at he
    exact (List.mem_filter.mp he).1

end

/-! ### The world of a run -/

/-- What the reader was handed since its baseline: every event up to its cursor, once and in
order. -/
def Received (log : String → List NativeEvent) (r : Reader) : Prop :=
  match r.cursor with
  | none => r.received = []
  | some cursor => r.baseline ≤ cursor.sequence ∧ cursor.sequence ≤ (log cursor.generation).length ∧
      r.received = between NativeEvent.sequence r.baseline cursor.sequence (log cursor.generation)

/-- The log of each generation is complete, and every snapshot is a window on its log. -/
structure Kept (w : World) : Prop where
  numbered : ∀ g, Numbered NativeEvent.sequence (w.log g)
  length : (w.log w.generation).length = w.shown.sequence
  shown : WindowOf (w.log w.generation) w.shown
  current : w.generation ∈ w.used
  unused : ∀ g, g ∉ w.used → w.log g = []
  taken : ∀ s ∈ w.taken, WindowOf (w.log s.generation) s.shown
  published : ∀ s, w.published = some s → WindowOf (w.log s.generation) s.shown
  reader : Received w.log w.reader

/-- What an answer tells the reader of the log. -/
structure Answers (w : World) (answer : Updates) : Prop where
  exact : answer.reset = none → ∃ cursor snapshot, w.reader.cursor = some cursor ∧
    answer.read.snapshot = some snapshot ∧ snapshot.generation = cursor.generation ∧
    cursor.sequence ≤ snapshot.shown.sequence ∧
    answer.cursor = some ⟨snapshot.generation, snapshot.shown.sequence⟩ ∧
    answer.events =
      between NativeEvent.sequence cursor.sequence snapshot.shown.sequence (w.log snapshot.generation)
  null_iff : answer.reset = none ↔ answer.read.status = .live ∧ ∃ cursor snapshot,
    w.reader.cursor = some cursor ∧ answer.read.snapshot = some snapshot ∧
    snapshot.generation = cursor.generation ∧ cursor.sequence ≤ snapshot.shown.sequence ∧
    ∀ e ∈ between NativeEvent.sequence cursor.sequence snapshot.shown.sequence (w.log snapshot.generation),
      e ∈ snapshot.shown.events
  silent : answer.reset ≠ none → answer.events = []
  baseline : answer.reset ≠ none → answer.cursor = answer.read.snapshot.bind fun snapshot =>
    if answer.read.status = .live then some ⟨snapshot.generation, snapshot.shown.sequence⟩ else none

section
variable {b : Builtins} {w : World}

/-- The gap test misses nothing: a null reset is given exactly when the window holds every event
above the cursor of its generation. -/
theorem resetOf_eq_none_iff {log : String → List NativeEvent} {snapshot : OwnedCodexSnapshot}
    (hwindow : WindowOf (log snapshot.generation) snapshot.shown)
    (hnumbered : Numbered NativeEvent.sequence (log snapshot.generation)) {cursor : Option CodexRuntimeCursor} :
    resetOf snapshot cursor = none ↔ ∃ c, cursor = some c ∧ snapshot.generation = c.generation ∧
      c.sequence ≤ snapshot.shown.sequence ∧
      ∀ e ∈ between NativeEvent.sequence c.sequence snapshot.shown.sequence (log snapshot.generation),
        e ∈ snapshot.shown.events := by
  cases cursor with
  | none => simp [resetOf]
  | some c =>
    have hfirst := hwindow.firstSequence_eq hnumbered
    have hlength := (hwindow.isRun hnumbered).length_le
    constructor
    · intro hreset
      simp only [resetOf] at hreset
      split at hreset
      · cases hreset
      · rename_i hsame
        split at hreset
        · cases hreset
        · rename_i hreach
          have hlow : c.sequence ≤ snapshot.shown.sequence := by omega
          refine ⟨c, rfl, (not_not.mp hsame).symm, hlow, ?_⟩
          exact (hwindow.holds_iff hnumbered hlow).mpr (by omega)
    · rintro ⟨c', hc, hsame, hlow, hall⟩
      obtain rfl := Option.some.inj hc
      have hreach := (hwindow.holds_iff hnumbered hlow).mp hall
      simp only [resetOf]
      rw [if_neg (not_not.mpr hsame.symm), if_neg (by omega)]

/-- What a poll is answered at any moment. -/
theorem answers (hkept : Kept w) (status : ReadStatus) :
    Answers w (codexRuntimeUpdates (w.read status) w.reader.cursor) := by
  cases hpublished : w.published with
  | none =>
    have hnone : (w.read status).snapshot = none := by simp [World.read, hpublished]
    have hanswer : codexRuntimeUpdates (w.read status) w.reader.cursor =
        { read := w.read status, cursor := none, reset := some .unavailable, events := [] } := by
      unfold codexRuntimeUpdates
      rw [hnone]
      split
      · rename_i heq
        cases heq
      · rfl
    rw [hanswer]
    exact ⟨nofun, by simp [hnone], fun _ => rfl, fun _ => by simp [hnone]⟩
  | some snapshot =>
    have hwindow := hkept.published snapshot hpublished
    have hnumbered := hkept.numbered snapshot.generation
    cases status with
    | stale | unavailable =>
      refine ⟨nofun, ⟨nofun, ?_⟩, fun _ => rfl, fun _ => ?_⟩
      · rintro ⟨hlive, -⟩
        cases hlive
      · simp [codexRuntimeUpdates, World.read, hpublished]
    | live =>
      have hread : w.read .live = ⟨.live, some snapshot⟩ := by simp [World.read, hpublished]
      rw [hread]
      refine ⟨fun hreset => ?_, ?_, fun hreset => ?_, fun _ => rfl⟩
      · obtain ⟨c, hcursor, hsame, hlow, hall⟩ := (resetOf_eq_none_iff hwindow hnumbered).mp hreset
        refine ⟨c, snapshot, hcursor, rfl, hsame, hlow, rfl, ?_⟩
        have hevents := hwindow.filter_eq hnumbered hlow
          ((hwindow.holds_iff hnumbered hlow).mp hall)
        have hnone : resetOf snapshot (some c) = none := hcursor ▸ hreset
        simp only [codexRuntimeUpdates, hcursor, hnone, if_true, Option.map_some, Option.getD_some]
        exact hevents
      · refine (resetOf_eq_none_iff hwindow hnumbered).trans ⟨?_, ?_⟩
        · rintro ⟨c, hcursor, hsame, hlow, hall⟩
          exact ⟨rfl, c, snapshot, hcursor, rfl, hsame, hlow, hall⟩
        · rintro ⟨-, c, snapshot', hcursor, hsnapshot, hsame, hlow, hall⟩
          obtain rfl := Option.some.inj hsnapshot
          exact ⟨c, hcursor, hsame, hlow, hall⟩
      · have hsome : resetOf snapshot w.reader.cursor ≠ none := hreset
        simp only [codexRuntimeUpdates, if_neg hsome]

theorem kept_start (generation threadId : String) : Kept (World.start generation threadId) where
  numbered _ := isRun_nil
  length := rfl
  shown := ⟨Nat.le_refl _, by simp [World.start, keepLast]⟩
  current := List.mem_singleton.mpr rfl
  unused _ _ := rfl
  taken _ hs := absurd hs List.not_mem_nil
  published _ hs := nomatch hs
  reader := rfl

/-- A log that grows keeps what was received of it. -/
theorem Received.grow {log : String → List NativeEvent} {r : Reader} (h : Received log r)
    (hnumbered : ∀ g, Numbered NativeEvent.sequence (log g)) {g : String} {more : List NativeEvent}
    (hgrown : Numbered NativeEvent.sequence (log g ++ more)) :
    Received (Function.update log g (log g ++ more)) r := by
  unfold Received at h ⊢
  cases hcursor : r.cursor with
  | none =>
    rw [hcursor] at h
    exact h
  | some cursor =>
    rw [hcursor] at h
    obtain ⟨hlow, hhigh, hreceived⟩ := h
    by_cases hsame : cursor.generation = g
    · subst hsame
      have hlong : cursor.sequence ≤ (log cursor.generation ++ more).length := by
        rw [List.length_append]
        omega
      dsimp only
      rw [Function.update_self]
      refine ⟨hlow, hlong, ?_⟩
      rw [hreceived, (hnumbered _).between_eq hlow hhigh, hgrown.between_eq hlow hlong,
        List.take_append_of_le_length hhigh]
    · dsimp only
      rw [Function.update_of_ne hsame]
      exact ⟨hlow, hhigh, hreceived⟩

/-- The reader after an answer. -/
theorem Kept.poll (hkept : Kept w) (status : ReadStatus) :
    Received w.log (w.reader.take (codexRuntimeUpdates (w.read status) w.reader.cursor)) := by
  obtain ⟨hexact, -, -, hbaseline⟩ := answers hkept status
  have hpublished : ∀ s, (codexRuntimeUpdates (w.read status) w.reader.cursor).read.snapshot =
      some s → WindowOf (w.log s.generation) s.shown := by
    intro s hs
    have hread : (codexRuntimeUpdates (w.read status) w.reader.cursor).read = w.read status := by
      unfold codexRuntimeUpdates
      split <;> rfl
    rw [hread] at hs
    unfold World.read at hs
    split at hs
    · cases hs
    · exact hkept.published s hs
  generalize codexRuntimeUpdates (w.read status) w.reader.cursor = answer at *
  have hreader := hkept.reader
  unfold Reader.take
  cases hcursor : answer.cursor with
  | none => exact hreader
  | some cursor =>
    cases hreset : answer.reset with
    | some reset =>
      have htold := hbaseline (by simp [hreset])
      rw [hcursor] at htold
      obtain ⟨s, hs, hif⟩ := Option.bind_eq_some_iff.mp htold.symm
      split at hif
      · obtain rfl := Option.some.inj hif
        have hwindow := hpublished s hs
        exact ⟨Nat.le_refl _, hwindow.le,
          ((hkept.numbered s.generation).between_self hwindow.le).symm⟩
      · cases hif
    | none =>
      obtain ⟨old, s, hold, hs, hsame, hle, hnew, hevents⟩ := hexact hreset
      rw [hcursor] at hnew
      obtain rfl := Option.some.inj hnew
      have hwindow := hpublished s hs
      unfold Received at hreader
      rw [hold] at hreader
      obtain ⟨hlow, hhigh, hreceived⟩ := hreader
      rw [← hsame] at hreceived
      refine ⟨hlow.trans hle, hwindow.le, ?_⟩
      show w.reader.received ++ answer.events = _
      rw [hreceived, hevents]
      exact (hkept.numbered s.generation).between_append hlow hle hwindow.le

theorem keepLast_push {α : Type} (n : Nat) (items : List α) (x : α) :
    keepLast n (keepLast n items ++ [x]) = keepLast n (items ++ [x]) := by
  have hcut : items.length - n ≤ items.length := Nat.sub_le _ _
  unfold keepLast
  rw [← List.drop_append_of_le_length hcut, List.drop_drop]
  congr 1
  simp only [List.length_drop, List.length_append, List.length_singleton]
  omega

theorem newest {events : List NativeEvent} {last n : Nat} {e : NativeEvent}
    (h : IsRun NativeEvent.sequence last events) (he : e.sequence = last + 1) (hn : 0 < n) :
    (keepLast n (events ++ [e])).filter (fun other => decide (last < other.sequence)) = [e] := by
  have hpushed := h.push he
  have hlength : (events ++ [e]).length = events.length + 1 := by simp
  rw [keepLast, (hpushed.drop _).filter_newer last, List.drop_drop, List.length_drop, hlength]
  have hindex : events.length + 1 - n + (events.length + 1 - (events.length + 1 - n) -
      (last + 1 - last)) = events.length := by omega
  rw [hindex, List.drop_left]

/-- The log of the current generation after a call. -/
theorem Kept.logged (hkept : Kept w) (c : Call) :
    ∃ more, (call b w.shown c).events.filter (fun e => decide (w.shown.sequence < e.sequence)) =
        more ∧ Numbered NativeEvent.sequence (w.log w.generation ++ more) ∧
      (w.log w.generation ++ more).length = (call b w.shown c).sequence ∧
      WindowOf (w.log w.generation ++ more) (call b w.shown c) := by
  have hlength := hkept.length
  have hnumbered := hkept.numbered w.generation
  have hrun := hkept.shown.isRun hnumbered
  rcases records_call (b := b) w.shown c with ⟨hsequence, hevents⟩ | ⟨e, he, hsequence, hevents⟩
  · refine ⟨[], ?_, by simpa using hnumbered, by simpa [hsequence] using hlength, ?_⟩
    · rw [hevents, hrun.filter_newer w.shown.sequence]
      simp
    · rw [List.append_nil]
      refine ⟨?_, ?_⟩
      · rw [hsequence]
        exact hkept.shown.le
      · rw [hevents, hsequence]
        exact hkept.shown.events
  · have hnext : e.sequence = (w.log w.generation).length + 1 := by rw [he, hlength]
    have hwhole : (w.log w.generation ++ [e]).length = (call b w.shown c).sequence := by
      rw [hsequence, List.length_append, hlength, List.length_singleton]
    refine ⟨[e], ?_, ?_, hwhole, ?_, ?_⟩
    · rw [hevents]
      exact newest hrun he (by decide)
    · have hpushed := hnumbered.push hnext
      rwa [← List.length_singleton (a := e), ← List.length_append] at hpushed
    · exact Nat.le_of_eq hwhole.symm
    · have htake : (w.log w.generation).take w.shown.sequence = w.log w.generation := by
        rw [← hlength, List.take_length]
      rw [hevents, hkept.shown.events, htake, keepLast_push, ← hwhole, List.take_length]

theorem kept_step {w' : World} {act : Act} (hkept : Kept w) (hstep : step b w act = some w') :
    Kept w' := by
  cases act with
  | call c =>
    obtain ⟨more, hmore, hnumbered, hlength, hwindow⟩ := hkept.logged (b := b) c
    obtain rfl := Option.some.inj hstep
    rw [hmore]
    have hgrow : ∀ s : OwnedCodexSnapshot, WindowOf (w.log s.generation) s.shown →
        WindowOf (Function.update w.log w.generation (w.log w.generation ++ more) s.generation)
          s.shown := by
      intro s hs
      by_cases hsame : s.generation = w.generation
      · rw [hsame, Function.update_self]
        rw [hsame] at hs
        exact hs.grow
      · rw [Function.update_of_ne hsame]
        exact hs
    refine ⟨fun g => ?_, ?_, ?_, hkept.current, fun g hg => ?_, fun s hs => hgrow s (hkept.taken s hs),
      fun s hs => hgrow s (hkept.published s hs), hkept.reader.grow hkept.numbered hnumbered⟩
    · dsimp only
      by_cases hsame : g = w.generation
      · rw [hsame, Function.update_self]
        exact hnumbered
      · rw [Function.update_of_ne hsame]
        exact hkept.numbered g
    · dsimp only
      rw [Function.update_self]
      exact hlength
    · dsimp only
      rw [Function.update_self]
      exact hwindow
    · have hother : g ≠ w.generation := fun hsame => hg (hsame ▸ hkept.current)
      dsimp only
      rw [Function.update_of_ne hother]
      exact hkept.unused g hg
  | restart generation threadId =>
    simp only [step] at hstep
    split at hstep
    · cases hstep
    · rename_i hfresh
      obtain rfl := Option.some.inj hstep
      have hempty := hkept.unused generation hfresh
      refine { hkept with
        length := ?_, shown := ?_, current := List.mem_cons_self, unused := fun g hg => ?_ }
      · dsimp only
        rw [hempty]
        rfl
      · dsimp only
        rw [hempty]
        exact ⟨Nat.le_refl _, by simp [keepLast]⟩
      · exact hkept.unused g fun hused => hg (List.mem_cons_of_mem _ hused)
  | snapshot =>
    obtain rfl := Option.some.inj hstep
    refine { hkept with taken := fun s hs => ?_ }
    rcases List.mem_append.mp hs with hold | hnew
    · exact hkept.taken s hold
    · obtain rfl := List.mem_singleton.mp hnew
      exact hkept.shown
  | write n =>
    obtain rfl := Option.some.inj hstep
    refine { hkept with published := fun s hs => ?_ }
    rcases Option.or_eq_some_iff.mp hs with htaken | ⟨-, hold⟩
    · exact hkept.taken s (List.mem_of_getElem? htaken)
    · exact hkept.published s hold
  | poll status =>
    obtain rfl := Option.some.inj hstep
    exact { hkept with reader := hkept.poll status }

/-- In every run, over changes of the projection, restarts, late writes of the status file and
polls: the reader was handed every event after its baseline up to its cursor, once and in order,
and so it stays with every answer; a null reset hides no event. -/
theorem updates_followed {generation threadId : String} {acts : List Act}
    (hrun : run (step b) (World.start generation threadId) acts = some w) :
    Kept w ∧ ∀ status, Answers w (codexRuntimeUpdates (w.read status) w.reader.cursor) := by
  have hkept : Kept w := run_invariant (fun _ _ _ h hstep => kept_step h hstep) hrun
    (kept_start generation threadId)
  exact ⟨hkept, answers hkept⟩

/-- A thread that starts to work between two polls, each of a snapshot written before it. -/
def turnOfWork : List Act :=
  [.snapshot, .write 0, .poll .live, .call (.event (.status "thread" .idle)),
    .call (.event (.turn true "thread" "turn" .inProgress)), .poll .stale, .snapshot, .write 1,
    .poll .live]

theorem updates_followed_turn :
    ∃ w, run (step sliceBuiltins) (World.start "generation" "thread") turnOfWork = some w ∧
      w.reader.received.map (·.sequence) = [1, 2] ∧ Kept w ∧
      ∀ status, Answers w (codexRuntimeUpdates (w.read status) w.reader.cursor) := by
  have hrun : run (step sliceBuiltins) (World.start "generation" "thread") turnOfWork =
      some _ := rfl
  obtain ⟨hkept, hanswers⟩ := updates_followed hrun
  exact ⟨_, hrun, by decide, hkept, hanswers⟩

end

end Ccmux.Agent.Codex.Cursor
