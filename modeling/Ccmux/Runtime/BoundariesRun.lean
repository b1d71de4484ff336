/- Module: Ccmux/Runtime/BoundariesRun
   source: src/runtime/events.ts, src/agent/codex/owned/connection.ts
   digest: Over every run of publishes and restarts a turn boundary reaches the feed at most once
     and in order, and each one that a publish covers does. -/

import Ccmux.Runtime.Boundaries

namespace Ccmux.Runtime.Boundaries

open Ccmux.Agent.Codex.Owned (EventKind keepLast maxEvents)
open Ccmux.Lib.Machine Ccmux.Lib.Window

section
variable {enabled : Bool} {appended : Nat → Bool} {after mark last : Nat} {events : List Boundary}

theorem emitLoop_appends :
    (emitLoop enabled appended after events mark).2 =
      (events.filter fun e => after < e.sequence).filter fun e =>
        isTurn e.kind && (enabled && appended e.sequence) := by
  induction events generalizing mark with
  | nil => rfl
  | cons e rest ih =>
    by_cases hold : e.sequence ≤ after
    · have hskip : ¬ after < e.sequence := Nat.not_lt.mpr hold
      rw [emitLoop, if_pos hold, ih, List.filter_cons_of_neg (by simpa using hskip)]
    · have hnew : after < e.sequence := Nat.not_le.mp hold
      rw [List.filter_cons_of_pos (by simpa using hnew), emitLoop, if_neg hold]
      have hrest := @ih (max mark e.sequence)
      cases enabled <;> cases hturn : isTurn e.kind <;> cases hwritten : appended e.sequence <;>
        simp [hturn, hwritten, hrest]

theorem le_emitLoop_mark : mark ≤ (emitLoop enabled appended after events mark).1 := by
  induction events generalizing mark with
  | nil => exact Nat.le_refl _
  | cons e rest ih =>
    rw [emitLoop]
    split
    · exact ih
    · have hrest := @ih (max mark e.sequence)
      dsimp only
      split <;> exact Nat.le_trans (Nat.le_max_left _ _) hrest

theorem emitLoop_mark_le (hmark : mark ≤ last) (h : ∀ e ∈ events, e.sequence ≤ last) :
    (emitLoop enabled appended after events mark).1 ≤ last := by
  induction events generalizing mark with
  | nil => exact hmark
  | cons e rest ih =>
    have hrest : ∀ x ∈ rest, x.sequence ≤ last := fun x hx => h x (List.mem_cons_of_mem e hx)
    rw [emitLoop]
    split
    · exact ih hmark hrest
    · have hmax : max mark e.sequence ≤ last :=
        Nat.max_le.mpr ⟨hmark, h e List.mem_cons_self⟩
      dsimp only
      split <;> exact ih hmax hrest

theorem le_emitLoop_mark_of_mem {e : Boundary} (he : e ∈ events) (hnew : after < e.sequence) :
    e.sequence ≤ (emitLoop enabled appended after events mark).1 := by
  induction events generalizing mark with
  | nil => cases he
  | cons first rest ih =>
    rw [emitLoop]
    rcases List.mem_cons.mp he with rfl | hrest
    · rw [if_neg (Nat.not_le.mpr hnew)]
      have hkept := @le_emitLoop_mark enabled appended after (max mark e.sequence) rest
      dsimp only
      split <;> exact Nat.le_trans (Nat.le_max_right _ _) hkept
    · split
      · exact ih hrest
      · dsimp only
        split <;> exact ih hrest

end

/-- The entries a connection has recorded, all of them: the ring holds the last of them, and those
above the mark are due. -/
structure Behind (p : Publisher) (entries : List Boundary) : Prop where
  numbered : IsRun Boundary.sequence p.sequence entries
  length : entries.length = p.sequence
  ring : p.events = keepLast maxEvents entries
  mark : p.mark ≤ p.sequence

def turnRows (generation : Nat) (entries : List Boundary) : List Row :=
  (entries.filter fun e => isTurn e.kind).map (rowOf generation)

/-- The feed is a part of what was recorded, in its order, up to what is due. -/
structure Tracked (w : World) : Prop where
  behind : ∃ entries, Behind w.publisher entries ∧
    w.due = turnRows w.publisher.generation (entries.drop w.publisher.mark)
  unread : w.publisher.mark + w.unread = w.publisher.sequence
  settled : ∃ before, w.recorded = before ++ w.due ∧ w.feed.Sublist before ∧
    ∀ row ∈ w.passed, row ∈ before
  owed : ∀ row ∈ w.owed, row ∈ w.feed
  apart : ∀ row ∈ w.passed, row ∉ w.feed
  distinct : w.recorded.Nodup
  past : ∀ row ∈ w.recorded, row.generation ≤ w.publisher.generation ∧
    (row.generation = w.publisher.generation → row.sequence ≤ w.publisher.sequence)

section
variable {sessionEvents : Bool} {p : Publisher} {entries : List Boundary} {w v : World}
variable {appended : Nat → Bool}

theorem Behind.ring_numbered (h : Behind p entries) :
    IsRun Boundary.sequence p.sequence p.events := by
  rw [h.ring]
  exact h.numbered.drop _

theorem Behind.newer (h : Behind p entries) (hunread : p.sequence - p.mark ≤ maxEvents) :
    (p.events.filter fun e => p.mark < e.sequence) = entries.drop p.mark := by
  have hmark := h.mark
  have hlength := h.length
  rw [h.ring_numbered.filter_newer, h.ring]
  unfold keepLast
  rw [List.drop_drop, List.length_drop]
  congr 1
  omega

theorem Behind.published_mark (h : Behind p entries) (hunread : p.sequence - p.mark ≤ maxEvents) :
    (p.publish sessionEvents appended).1.mark = p.sequence := by
  have hbounds : ∀ e ∈ p.events, e.sequence ≤ p.sequence :=
    fun e he => (h.ring_numbered.mem_bounds he).2
  have hupper : (p.publish sessionEvents appended).1.mark ≤ p.sequence :=
    emitLoop_mark_le h.mark hbounds
  refine Nat.le_antisymm hupper ?_
  by_cases hnone : p.sequence = p.mark
  · rw [hnone]
    exact le_emitLoop_mark
  · -- The last entry is in the ring and carries the counter.
    have hmark := h.mark
    have hlength := h.length
    have hnewer := h.newer hunread
    have hlast : p.sequence - 1 < entries.length := by omega
    have hmember : entries[p.sequence - 1] ∈ entries.drop p.mark := by
      rw [List.mem_drop_iff_getElem]
      exact ⟨p.sequence - 1 - p.mark, by omega, by congr 1; omega⟩
    have hnumber := h.numbered.number_getElem (i := p.sequence - 1) (by omega)
    rw [← hnewer] at hmember
    obtain ⟨hring, -⟩ := List.mem_filter.mp hmember
    have hle := @le_emitLoop_mark_of_mem
      (eventsEnabledFor p.eventsEnabled sessionEvents) appended p.mark p.mark p.events _ hring
      (by rw [hnumber]; omega)
    rw [hnumber] at hle
    have hfinal : (p.publish sessionEvents appended).1.mark =
      (emitLoop (eventsEnabledFor p.eventsEnabled sessionEvents) appended p.mark p.events
        p.mark).1 := rfl
    omega

theorem Behind.published_rows (h : Behind p entries) (hunread : p.sequence - p.mark ≤ maxEvents) :
    (p.publish sessionEvents appended).2 =
      (turnRows p.generation (entries.drop p.mark)).filter fun row =>
        eventsEnabledFor p.eventsEnabled sessionEvents && appended row.sequence := by
  have hrows : (p.publish sessionEvents appended).2 =
      (emitLoop (eventsEnabledFor p.eventsEnabled sessionEvents) appended p.mark p.events
        p.mark).2.map (rowOf p.generation) := rfl
  rw [hrows, emitLoop_appends, h.newer hunread, turnRows, List.filter_map, List.filter_filter]
  congr 1
  refine List.filter_congr ?_
  intro e _
  rw [Bool.and_comm]
  rfl

theorem keepLast_push {α : Type} (n : Nat) (items : List α) (new : α) :
    keepLast n (keepLast n items ++ [new]) = keepLast n (items ++ [new]) := by
  unfold keepLast
  rw [List.length_append, List.length_drop, List.length_append, List.length_singleton,
    ← List.drop_append_of_le_length (Nat.sub_le items.length n), List.drop_drop]
  congr 1
  omega

theorem turnRows_append (generation : Nat) (left right : List Boundary) :
    turnRows generation (left ++ right) =
      turnRows generation left ++ turnRows generation right := by
  rw [turnRows, List.filter_append, List.map_append, turnRows, turnRows]

theorem Behind.activated_mark (h : Behind p entries) : p.activate.mark = p.sequence := by
  have hmark : p.activate.mark = (p.events.getLast?.map (·.sequence)).getD 0 := rfl
  have hlength := h.length
  rw [hmark, h.ring]
  unfold keepLast
  rw [List.getLast?_drop]
  rcases Nat.eq_zero_or_pos p.sequence with hnone | hsome
  · rw [hnone] at hlength
    rw [List.eq_nil_of_length_eq_zero hlength, hnone]
    split <;> rfl
  · have hfull : ¬ entries.length ≤ entries.length - maxEvents := by
      have hroom : 0 < maxEvents := by decide
      omega
    rw [if_neg hfull, List.getLast?_eq_getElem?, List.getElem?_eq_getElem (by omega)]
    have hnumber := h.numbered.number_getElem (i := entries.length - 1) (by omega)
    rw [Option.map_some, Option.getD_some, hnumber]
    omega

theorem Tracked.record (h : Tracked w) {kind : EventKind} {at_ : Int} {turn : Option BoundaryTurn}
    (hstep : step sessionEvents w (.record kind at_ turn) = some v) : Tracked v := by
  obtain ⟨entries, hbehind, hdue⟩ := h.behind
  obtain ⟨before, hrecorded, hfeed, hpassed⟩ := h.settled
  obtain ⟨e, hsequence, hkind, hpublisher⟩ : ∃ e : Boundary,
      e.sequence = w.publisher.sequence + 1 ∧ e.kind = kind ∧
        w.publisher.record kind at_ turn =
          ({ w.publisher with
              sequence := w.publisher.sequence + 1
              events := keepLast maxEvents (w.publisher.events ++ [e]) }, e) :=
    ⟨{ sequence := w.publisher.sequence + 1, kind, at_, turn }, rfl, rfl, rfl⟩
  have hrows : (if isTurn kind then [rowOf w.publisher.generation e] else []) =
      turnRows w.publisher.generation [e] := by
    rw [turnRows, List.filter_singleton, hkind]
    cases isTurn kind <;> rfl
  simp only [step, hpublisher, Option.some.injEq] at hstep
  rw [hrows] at hstep
  obtain rfl := hstep
  have hnext : Behind
      { w.publisher with
        sequence := w.publisher.sequence + 1
        events := keepLast maxEvents (w.publisher.events ++ [e]) } (entries ++ [e]) := by
    refine ⟨hbehind.numbered.push hsequence, ?_, ?_, Nat.le_succ_of_le hbehind.mark⟩
    · rw [List.length_append, hbehind.length]
      rfl
    · dsimp only
      rw [hbehind.ring, keepLast_push]
  have hrow : ∀ row ∈ turnRows w.publisher.generation [e],
      row = rowOf w.publisher.generation e := by
    intro row hrow
    obtain ⟨x, hx, rfl⟩ := List.mem_map.mp hrow
    obtain rfl := List.mem_singleton.mp (List.mem_filter.mp hx).1
    rfl
  refine
    { behind := ⟨entries ++ [e], hnext, ?_⟩
      unread := ?_
      settled := ⟨before, ?_, hfeed, hpassed⟩
      owed := h.owed
      apart := h.apart
      distinct := ?_
      past := ?_ }
  · have hmark := hbehind.mark
    have hlength := hbehind.length
    dsimp only
    rw [List.drop_append_of_le_length (by omega), turnRows_append, hdue]
  · have hunread := h.unread
    dsimp only
    omega
  · dsimp only
    rw [hrecorded, List.append_assoc]
  · refine List.nodup_append.mpr ⟨h.distinct, ?_, ?_⟩
    · rw [← hrows]
      split
      · exact List.nodup_singleton _
      · exact List.nodup_nil
    · intro old hold new hnew hsame
      obtain rfl := hrow new hnew
      subst hsame
      have hold := (h.past _ hold).2 rfl
      rw [show (rowOf w.publisher.generation e).sequence = e.sequence from rfl] at hold
      omega
  · intro row hmember
    dsimp only
    rcases List.mem_append.mp hmember with hold | hnew
    · obtain ⟨hgeneration, hless⟩ := h.past row hold
      exact ⟨hgeneration, fun hsame => Nat.le_succ_of_le (hless hsame)⟩
    · obtain rfl := hrow row hnew
      exact ⟨Nat.le_refl _, fun _ => Nat.le_of_eq hsequence⟩

theorem Tracked.settle (h : Tracked w) (taken : Row → Bool) :
    (w.feed ++ w.due.filter taken).Sublist w.recorded ∧
      (∀ row ∈ w.passed ++ w.due.filter (fun row => !taken row), row ∈ w.recorded) ∧
      ∀ row ∈ w.passed ++ w.due.filter (fun row => !taken row),
        row ∉ w.feed ++ w.due.filter taken := by
  obtain ⟨before, hrecorded, hfeed, hpassed⟩ := h.settled
  have hdistinct := h.distinct
  rw [hrecorded] at hdistinct ⊢
  have hapart := (List.nodup_append.mp hdistinct).2.2
  refine ⟨hfeed.append List.filter_sublist, ?_, ?_⟩
  · intro row hrow
    rcases List.mem_append.mp hrow with hold | hdue
    · exact List.mem_append_left _ (hpassed row hold)
    · exact List.mem_append_right _ (List.mem_filter.mp hdue).1
  · intro row hrow hin
    rcases List.mem_append.mp hrow with hold | hdue
    · rcases List.mem_append.mp hin with hfed | htaken
      · exact h.apart row hold hfed
      · exact hapart row (hpassed row hold) row (List.mem_filter.mp htaken).1 rfl
    · obtain ⟨hdue, hleft⟩ := List.mem_filter.mp hdue
      rcases List.mem_append.mp hin with hfed | htaken
      · exact hapart row (hfeed.mem hfed) row hdue rfl
      · rw [(List.mem_filter.mp htaken).2] at hleft
        cases hleft

theorem filter_none {rows : List Row} :
    rows.filter (fun _ => false) = [] ∧ rows.filter (fun _ => !false) = rows := by
  constructor
  · exact List.filter_false rows
  · exact List.filter_true rows

theorem Tracked.activate (h : Tracked w) (hstep : step sessionEvents w .activate = some v) :
    Tracked v := by
  obtain ⟨entries, hbehind, -⟩ := h.behind
  obtain rfl := Option.some.inj hstep
  have hmark := hbehind.activated_mark
  obtain ⟨hfeed, hpassed, hapart⟩ := h.settle fun _ => false
  rw [filter_none.1, List.append_nil] at hfeed
  rw [filter_none.2] at hpassed hapart
  rw [filter_none.1, List.append_nil] at hapart
  have hnext : Behind w.publisher.activate entries :=
    ⟨hbehind.numbered, hbehind.length, hbehind.ring, Nat.le_of_eq hmark⟩
  refine
    { behind := ⟨entries, hnext, ?_⟩
      unread := ?_
      settled := ⟨w.recorded, (List.append_nil _).symm, hfeed, hpassed⟩
      owed := h.owed
      apart := hapart
      distinct := h.distinct
      past := h.past }
  · dsimp only
    rw [hmark, ← hbehind.length, List.drop_length]
    rfl
  · exact hmark

theorem Tracked.publish (h : Tracked w) (hunread : w.unread ≤ maxEvents)
    (hstep : step sessionEvents w (.publish appended) = some v) : Tracked v := by
  obtain ⟨entries, hbehind, hdue⟩ := h.behind
  simp only [step] at hstep
  split at hstep
  · obtain rfl := Option.some.inj hstep
    have hcount : w.publisher.sequence - w.publisher.mark ≤ maxEvents := by
      have hsum := h.unread
      omega
    have hmark := @Behind.published_mark sessionEvents _ _ appended hbehind hcount
    have hrows := @Behind.published_rows sessionEvents _ _ appended hbehind hcount
    rw [← hdue] at hrows
    obtain ⟨hfeed, hpassed, hapart⟩ := h.settle fun row =>
      eventsEnabledFor w.publisher.eventsEnabled sessionEvents && appended row.sequence
    have hnext : Behind (w.publisher.publish sessionEvents appended).1 entries :=
      ⟨hbehind.numbered, hbehind.length, hbehind.ring, Nat.le_of_eq hmark⟩
    refine
      { behind := ⟨entries, hnext, ?_⟩
        unread := hmark
        settled := ⟨w.recorded, (List.append_nil _).symm, ?_, hpassed⟩
        owed := ?_
        apart := ?_
        distinct := h.distinct
        past := h.past }
    · dsimp only
      rw [hmark, ← hbehind.length, List.drop_length]
      rfl
    · dsimp only
      rw [hrows]
      exact hfeed
    · intro row hrow
      dsimp only at hrow ⊢
      rw [hrows]
      rcases List.mem_append.mp hrow with hold | hnew
      · exact List.mem_append_left _ (h.owed row hold)
      · exact List.mem_append_right _ hnew
    · dsimp only
      rw [hrows]
      exact hapart
  · obtain rfl := Option.some.inj hstep
    exact h

theorem Tracked.restart (h : Tracked w) {eventsEnabled : Option Bool}
    (hstep : step sessionEvents w (.restart eventsEnabled) = some v) : Tracked v := by
  obtain ⟨before, hrecorded, hfeed, hpassed⟩ := h.settled
  obtain rfl := Option.some.inj hstep
  have hless : before.Sublist w.recorded := by
    rw [hrecorded]
    exact List.sublist_append_left _ _
  refine
    { behind := ⟨[], ⟨isRun_nil, rfl, rfl, Nat.le_refl _⟩, rfl⟩
      unread := rfl
      settled := ⟨w.recorded, (List.append_nil _).symm, hfeed.trans hless, ?_⟩
      owed := h.owed
      apart := h.apart
      distinct := h.distinct
      past := ?_ }
  · intro row hrow
    exact hless.mem (hpassed row hrow)
  · intro row hrow
    have hgeneration := (h.past row hrow).1
    dsimp only
    exact ⟨Nat.le_succ_of_le hgeneration, fun hsame => by omega⟩

end

/-- A connection that is just made, and an empty feed. -/
def start (eventsEnabled : Option Bool) : World :=
  { publisher := { generation := 0, eventsEnabled } }

theorem tracked_start (eventsEnabled : Option Bool) : Tracked (start eventsEnabled) := by
  refine
    { behind := ⟨[], ⟨isRun_nil, rfl, rfl, Nat.le_refl _⟩, rfl⟩
      unread := rfl
      settled := ⟨[], rfl, List.Sublist.refl _, ?_⟩
      owed := ?_
      apart := ?_
      distinct := List.nodup_nil
      past := ?_ }
  · intro row hrow
    cases hrow
  · intro row hrow
    cases hrow
  · intro row hrow
    cases hrow
  · intro row hrow
    cases hrow

/-- Each turn boundary reaches the feed at most once, and in the order of recording. One that a
publish covers with the session's events on, and whose line is written, does reach it; one recorded
before the activation of its connection, or passed over with the events off, never does. -/
theorem boundaries_once_in_order (sessionEvents : Bool) (eventsEnabled : Option Bool)
    (acts : List Act) (w : World)
    (hrun : run (step sessionEvents) (start eventsEnabled) acts = some w)
    (hall : Along (step sessionEvents) (fun u act => fits u act = true) (start eventsEnabled)
      acts) :
    w.recorded.Nodup ∧ w.feed.Sublist w.recorded ∧ (∀ row ∈ w.owed, row ∈ w.feed) ∧
      ∀ row ∈ w.passed, row ∉ w.feed := by
  have htracked : Tracked w := by
    refine run_invariant_along (fun u act v h hfits hstep => ?_) hrun hall
      (tracked_start eventsEnabled)
    cases act with
    | record kind at_ turn => exact h.record hstep
    | activate => exact h.activate hstep
    | publish appended => exact h.publish (of_decide_eq_true hfits) hstep
    | restart eventsEnabled => exact h.restart hstep
  obtain ⟨before, hrecorded, hfeed, -⟩ := htracked.settled
  refine ⟨htracked.distinct, ?_, htracked.owed, htracked.apart⟩
  rw [hrecorded]
  exact hfeed.trans (List.sublist_append_left _ _)

/-- Two turns of a connection, the second behind a state change, and a restart between them. -/
def twoTurns : List Act :=
  [.activate, .record .turnStart 1000 (some ⟨some 1000, .inProgress⟩), .publish fun _ => true,
    .record .turnEnd 3000 (some ⟨some 1000, .completed⟩), .record .state 3001 none,
    .publish fun _ => true, .restart none, .activate,
    .record .turnStart 9000 (some ⟨some 9000, .inProgress⟩), .publish fun _ => true]

theorem boundaries_once_in_order_twoTurns :
    ∃ w, run (step true) (start none) twoTurns = some w ∧ w.feed.length = 3 ∧
      w.recorded.Nodup ∧ w.feed.Sublist w.recorded ∧ (∀ row ∈ w.owed, row ∈ w.feed) ∧
        ∀ row ∈ w.passed, row ∉ w.feed := by
  refine ⟨_, rfl, by decide, ?_⟩
  exact boundaries_once_in_order true none twoTurns _ rfl
    (along_of_check (C := fits) (by decide))

/-- The turn ends while the connection that follows a restart is being admitted. -/
def endsAtAdmission : List Act :=
  [.activate, .record .turnStart 1000 (some ⟨some 1000, .inProgress⟩), .publish fun _ => true,
    .restart none, .record .turnEnd 3000 (some ⟨none, .completed⟩), .activate,
    .publish fun _ => true]

/-- Its end is recorded before the activation, and the feed never gets it. -/
theorem restart_passes_over_end :
    ∃ w, run (step true) (start none) endsAtAdmission = some w ∧
      Along (step true) (fun u act => fits u act = true) (start none) endsAtAdmission ∧
        ∃ row ∈ w.recorded, row.line.event = .turnEnd ∧ row ∉ w.feed := by
  refine ⟨_, rfl, along_of_check (C := fits) (by decide), ?_⟩
  refine ⟨⟨1, 1, ⟨.turnEnd, none, false, none⟩⟩, ?_, rfl, ?_⟩
  · decide
  · decide

end Ccmux.Runtime.Boundaries
