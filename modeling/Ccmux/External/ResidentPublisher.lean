/- Module: Ccmux/External/ResidentPublisher
   source: src/external/residentPublisher.ts, src/util/snapshotPublisher.ts
   digest: The publisher of the external status, one subscriber of it, and what a stream may carry. -/

import Mathlib
import Ccmux.Lib.Machine
import Ccmux.External.ResidentFrames

namespace Ccmux.External

open Ccmux.Lib.Machine

/-- What `expire` last announced: the status and the evidence of each row. -/
abbrev Freshness := SnapshotStatus × List Evidence

/-- `ExternalStatusPublisher` with the generations it has used. -/
structure Publisher where
  snapshot : ExternalStatusSnapshot
  freshness : Option Freshness
  closed : Bool
  generations : List String
  deriving DecidableEq, Repr

/-- One subscription: the notice its channel keeps, a notice taken and not yet read for, the
snapshots it yielded and the clock of its last read. -/
structure Subscriber where
  notice : Option Nat
  taken : Bool
  yielded : List ExternalStatusSnapshot
  readAt : Instant
  deriving DecidableEq, Repr

structure World where
  publisher : Publisher
  subscriber : Subscriber
  deriving DecidableEq, Repr

inductive Event where
  | connecting (now : Instant)
  | producerChanged (generation : String)
  | publish (rows : List ExternalStatusRow) (truncated : Bool) (observedAt : Instant)
  | unavailable (reason : SnapshotReason) (now : Instant)
  | expire (now : Instant)
  | close (now : Instant)
  | take
  | read (now : Instant)

def pendingSnapshot (version machine generation : String) : ExternalStatusSnapshot :=
  { version, machine, generation, sequence := 0, status := .unavailable,
    reason := some .observationPending, observedAt := none, expiresAt := none, truncated := false,
    omitted := 0, sessions := [] }

/-- A publisher just made; its subscriber may take its first notice at any later time, since the
channel keeps the latest number only. -/
def startWorld (version machine generation : String) : World :=
  ⟨⟨pendingSnapshot version machine generation, none, false, [generation]⟩, ⟨some 0, false, [], 0⟩⟩

/-- `notify`: the channel keeps the latest number only. -/
def World.notify (w : World) (snapshot : ExternalStatusSnapshot) : World :=
  { publisher := { w.publisher with snapshot }
    subscriber := { w.subscriber with notice := some snapshot.sequence } }

/-- The rows within the bounds, observed threads first, and how many were left out. -/
def fitRows (rowBytes : ExternalStatusRow → Nat) (rows : List ExternalStatusRow) :
    List ExternalStatusRow × Nat :=
  let observed := rows.filter fun row => row.turnState.evidence == .observed
  let others := rows.filter fun row => row.turnState.evidence != .observed
  let fitted := (observed ++ others).foldl (fun (acc : List ExternalStatusRow × Nat × Nat) row =>
    let size := rowBytes row + 1
    if maxRows ≤ acc.1.length ∨ maxBytes < acc.2.1 + size then (acc.1, acc.2.1, acc.2.2 + 1)
    else (acc.1 ++ [row], acc.2.1 + size, acc.2.2)) ([], 4096, 0)
  (fitted.1, fitted.2.2)

def World.publish (rowBytes : ExternalStatusRow → Nat) (w : World) (rows : List ExternalStatusRow)
    (truncated : Bool) (observedAt : Instant) : World :=
  if w.publisher.closed then w
  else
    let fitted := fitRows rowBytes rows
    let snapshot := w.publisher.snapshot
    w.notify { snapshot with
      sequence := snapshot.sequence + 1
      status := .live
      reason := none
      observedAt := some observedAt
      expiresAt := some (observedAt + ttlMs)
      sessions := fitted.1
      omitted := fitted.2
      truncated := truncated || decide (0 < fitted.2) }

/-- Saying the same thing again is not news. -/
def World.unavailable (w : World) (reason : SnapshotReason) (now : Instant) : World :=
  let snapshot := w.publisher.snapshot
  if w.publisher.closed then w
  else if snapshot.status = .unavailable ∧ snapshot.reason = some reason then w
  else
    let current :=
      currentExternalStatus { snapshot with status := .unavailable, reason := some reason } now
    w.notify { current with sequence := current.sequence + 1 }

def freshnessOf (snapshot : ExternalStatusSnapshot) : Freshness :=
  (snapshot.status, snapshot.sessions.map fun row => row.turnState.evidence)

def World.expire (w : World) (now : Instant) : World :=
  let key := freshnessOf (currentExternalStatus w.publisher.snapshot now)
  if some key = w.publisher.freshness ∨ w.publisher.closed then w
  else
    let snapshot := w.publisher.snapshot
    let kept := { w with publisher := { w.publisher with freshness := some key } }
    kept.notify { snapshot with sequence := snapshot.sequence + 1 }

/-- The subscriber reads the snapshot as it is now, whatever the number it was woken by. -/
def World.yield (w : World) (now : Instant) : World :=
  let snapshot := currentExternalStatus w.publisher.snapshot now
  { w with subscriber :=
    { w.subscriber with
      taken := false, yielded := w.subscriber.yielded ++ [snapshot], readAt := now } }

/-- One step of the publisher and its subscriber; a new generation was never used before. -/
def step (rowBytes : ExternalStatusRow → Nat) (w : World) : Event → Option World
  | .connecting now =>
    if w.publisher.snapshot.status ≠ .live then some w
    else some (w.unavailable .observationPending now)
  | .producerChanged generation =>
    if generation ∈ w.publisher.generations then none
    else
      let snapshot := { w.publisher.snapshot with generation }
      let generations := generation :: w.publisher.generations
      some { w with publisher := { w.publisher with snapshot, generations } }
  | .publish rows truncated observedAt => some (w.publish rowBytes rows truncated observedAt)
  | .unavailable reason now => some (w.unavailable reason now)
  | .expire now => some (w.expire now)
  | .close now =>
    if w.publisher.closed then some w
    else
      let said := w.unavailable .daemonStopped now
      some { said with publisher := { said.publisher with closed := true } }
  | .take =>
    match w.subscriber.notice with
    | some _ =>
      if w.subscriber.taken then none
      else some { w with subscriber := { w.subscriber with notice := none, taken := true } }
    | none => none
  | .read now => if w.subscriber.taken then some (w.yield now) else none

/-- A read under the numbers of the read before it finds the freshness that one found. -/
def keepsFreshness (w : World) : Event → Bool
  | .read now =>
    w.subscriber.yielded.getLast?.all fun last =>
      !sameNumbers last w.publisher.snapshot ||
        decide (currentExternalStatus w.publisher.snapshot now =
          currentExternalStatus w.publisher.snapshot w.subscriber.readAt)
  | _ => true

/-! What the numbers of a stream say. -/

/-- Every snapshot the subscriber yielded has numbers the publisher has left, or the publisher's
own, and then it was the last one. -/
structure Sound (w : World) : Prop where
  numbered : Numbered w.subscriber.yielded
  current : w.publisher.snapshot.generation ∈ w.publisher.generations
  past : ∀ s ∈ w.subscriber.yielded, s.generation ∈ w.publisher.generations ∧
    s.sequence ≤ w.publisher.snapshot.sequence
  latest : ∀ s ∈ w.subscriber.yielded, sameNumbers s w.publisher.snapshot = true →
    w.subscriber.yielded.getLast? = some s ∧
      s = currentExternalStatus w.publisher.snapshot w.subscriber.readAt

section
variable {rowBytes : ExternalStatusRow → Nat} {w v : World} {next : ExternalStatusSnapshot}

theorem sound_start (version machine generation : String) :
    Sound (startWorld version machine generation) := by
  refine ⟨?_, List.mem_singleton_self _, ?_, ?_⟩
  · intro a ha
    cases ha
  · intro s hs
    cases hs
  · intro s hs
    cases hs

theorem Sound.notify (h : Sound w) (hgen : next.generation = w.publisher.snapshot.generation)
    (hseq : next.sequence = w.publisher.snapshot.sequence + 1) : Sound (w.notify next) := by
  refine ⟨h.numbered, ?_, ?_, ?_⟩
  · exact hgen ▸ h.current
  · intro s hs
    obtain ⟨hused, hle⟩ := h.past s hs
    refine ⟨hused, ?_⟩
    show s.sequence ≤ next.sequence
    omega
  · intro s hs hsame
    have hle := (h.past s hs).2
    have hnumber : s.sequence = next.sequence := (sameNumbers_iff.mp hsame).2
    omega

theorem sound_publish {rows : List ExternalStatusRow} {truncated : Bool} {observedAt : Instant}
    (h : Sound w) : Sound (w.publish rowBytes rows truncated observedAt) := by
  unfold World.publish
  split
  · exact h
  · exact h.notify rfl rfl

variable {now : Instant}

theorem sound_unavailable {reason : SnapshotReason} (h : Sound w) :
    Sound (w.unavailable reason now) := by
  unfold World.unavailable
  dsimp only
  split_ifs
  · exact h
  · exact h
  · exact h.notify rfl rfl

theorem sound_expire (h : Sound w) : Sound (w.expire now) := by
  unfold World.expire
  dsimp only
  split_ifs
  · exact h
  · have hkept : Sound { w with publisher := { w.publisher with
        freshness := some (freshnessOf (currentExternalStatus w.publisher.snapshot now)) } } :=
      ⟨h.numbered, h.current, h.past, h.latest⟩
    exact hkept.notify rfl rfl

variable {generation : String} {e : Event}

theorem sound_producerChanged (h : Sound w)
    (hnew : generation ∉ w.publisher.generations)
    (hv : v = { w with publisher := { w.publisher with
      snapshot := { w.publisher.snapshot with generation },
      generations := generation :: w.publisher.generations } }) : Sound v := by
  subst hv
  refine ⟨h.numbered, List.mem_cons_self, ?_, ?_⟩
  · intro s hs
    obtain ⟨hused, hle⟩ := h.past s hs
    exact ⟨List.mem_cons_of_mem _ hused, hle⟩
  · intro s hs hsame
    have hgen : s.generation = generation := (sameNumbers_iff.mp hsame).1
    exact absurd (hgen ▸ (h.past s hs).1) hnew

theorem sound_yield (h : Sound w) (hkeeps : keepsFreshness w (.read now) = true) :
    Sound (w.yield now) := by
  let fresh := currentExternalStatus w.publisher.snapshot now
  have hfresh : ∀ s ∈ w.subscriber.yielded, sameNumbers s w.publisher.snapshot = true →
      s = fresh := by
    intro s hs hsame
    obtain ⟨hlast, hread⟩ := h.latest s hs hsame
    simp only [keepsFreshness, hlast, Option.all_some, hsame, Bool.not_true, Bool.false_or,
      decide_eq_true_eq] at hkeeps
    exact hread.trans hkeeps.symm
  have hown : sameNumbers fresh w.publisher.snapshot = true := sameNumbers_current
  refine ⟨?_, h.current, ?_, ?_⟩
  · intro a ha b hb hab
    rcases List.mem_append.mp ha with ha | ha <;> rcases List.mem_append.mp hb with hb | hb
    · exact h.numbered a ha b hb hab
    · obtain rfl := List.mem_singleton.mp hb
      exact hfresh a ha (sameNumbers_trans hab hown)
    · obtain rfl := List.mem_singleton.mp ha
      exact (hfresh b hb (sameNumbers_trans (sameNumbers_symm hab) hown)).symm
    · rw [List.mem_singleton.mp ha, List.mem_singleton.mp hb]
  · intro s hs
    rcases List.mem_append.mp hs with hs | hs
    · exact h.past s hs
    · obtain rfl := List.mem_singleton.mp hs
      exact ⟨h.current, Nat.le_refl _⟩
  · intro s hs hsame
    have heq : s = fresh := by
      rcases List.mem_append.mp hs with hs | hs
      · exact hfresh s hs hsame
      · exact List.mem_singleton.mp hs
    refine ⟨?_, heq⟩
    rw [heq]
    exact List.getLast?_concat

theorem step_sound (h : Sound w) (hkeeps : keepsFreshness w e = true)
    (hstep : step rowBytes w e = some v) : Sound v := by
  cases e with
  | connecting now =>
    simp only [step] at hstep
    split at hstep
    · obtain rfl := Option.some.inj hstep
      exact h
    · obtain rfl := Option.some.inj hstep
      exact sound_unavailable h
  | producerChanged generation =>
    simp only [step] at hstep
    split at hstep
    · cases hstep
    · rename_i hnew
      exact sound_producerChanged h hnew (Option.some.inj hstep).symm
  | publish rows truncated observedAt =>
    obtain rfl := Option.some.inj hstep
    exact sound_publish h
  | unavailable reason now =>
    obtain rfl := Option.some.inj hstep
    exact sound_unavailable h
  | expire now =>
    obtain rfl := Option.some.inj hstep
    exact sound_expire h
  | close now =>
    simp only [step] at hstep
    split at hstep
    · obtain rfl := Option.some.inj hstep
      exact h
    · obtain rfl := Option.some.inj hstep
      have hsaid : Sound (w.unavailable .daemonStopped now) := sound_unavailable h
      exact ⟨hsaid.numbered, hsaid.current, hsaid.past, hsaid.latest⟩
  | take =>
    simp only [step] at hstep
    split at hstep
    · split at hstep
      · cases hstep
      · obtain rfl := Option.some.inj hstep
        exact ⟨h.numbered, h.current, h.past, h.latest⟩
    · cases hstep
  | read now =>
    simp only [step] at hstep
    split at hstep
    · obtain rfl := Option.some.inj hstep
      exact sound_yield h hkeeps
    · cases hstep

/-- A read that breaks the condition yields other content under numbers that were yielded. -/
theorem broken_read (h : Sound w) (hbroken : ¬ keepsFreshness w e = true)
    (hstep : step rowBytes w e = some v) : ¬ Numbered v.subscriber.yielded := by
  cases e with
  | read now =>
    simp only [step] at hstep
    split at hstep
    · obtain rfl := Option.some.inj hstep
      intro hnumbered
      cases hlast : w.subscriber.yielded.getLast? with
      | none => simp [keepsFreshness, hlast] at hbroken
      | some last =>
        simp only [keepsFreshness, hlast, Option.all_some, Bool.or_eq_true, Bool.not_eq_true',
          decide_eq_true_eq, not_or, Bool.not_eq_false] at hbroken
        obtain ⟨hsame, hother⟩ := hbroken
        have hmem : last ∈ w.subscriber.yielded := List.mem_of_getLast? hlast
        have hread := (h.latest last hmem hsame).2
        have hnumbers : sameNumbers last (currentExternalStatus w.publisher.snapshot now) = true :=
          sameNumbers_trans hsame (sameNumbers_symm sameNumbers_current)
        have heq := hnumbered last (List.mem_append_left _ hmem) _
          (List.mem_append_right _ (List.mem_singleton_self _)) hnumbers
        exact hother (heq.symm.trans hread)
    · cases hstep
  | connecting now => exact absurd rfl hbroken
  | producerChanged generation => exact absurd rfl hbroken
  | publish rows truncated observedAt => exact absurd rfl hbroken
  | unavailable reason now => exact absurd rfl hbroken
  | expire now => exact absurd rfl hbroken
  | close now => exact absurd rfl hbroken
  | take => exact absurd rfl hbroken

theorem stream_is_numbered_iff {version machine : String} {es : List Event}
    (hrun : run (step rowBytes) (startWorld version machine generation) es = some w) :
    (∀ v, Reached (step rowBytes) (startWorld version machine generation) es v →
      Numbered v.subscriber.yielded) ↔
      Along (step rowBytes) (fun v e => keepsFreshness v e = true)
        (startWorld version machine generation) es :=
  (along_iff_reached (fun _ _ _ hs hkeeps hstep => step_sound hs hkeeps hstep)
    (fun _ hs => hs.numbered) (fun _ _ _ hs hbroken hstep => broken_read hs hbroken hstep)
    hrun (sound_start version machine generation)).symm

/-- A reader of every frame holds each published snapshot in turn; and where no two reads under one
pair of numbers find another freshness, a reader of any of the frames, dropped or repeated, holds
nothing or the snapshot of the frame it received last. -/
theorem readers_hold_published (rowBytes : ExternalStatusRow → Nat)
    (version machine generation : String) (es : List Event) (w : World)
    (hrun : run (step rowBytes) (startWorld version machine generation) es = some w)
    (hall : Along (step rowBytes) (fun v e => keepsFreshness v e = true)
      (startWorld version machine generation) es) :
    (∀ i < w.subscriber.yielded.length,
      hold ((encode w.subscriber.yielded).take (i + 1)) = w.subscriber.yielded[i]?) ∧
    ∀ received last, (∀ x ∈ received ++ [last], x ∈ emitted w.subscriber.yielded) →
      hold ((received ++ [last]).map Prod.snd) = none ∨
        hold ((received ++ [last]).map Prod.snd) = some last.1 := by
  have hnumbered : Numbered w.subscriber.yielded :=
    (stream_is_numbered_iff hrun).mpr hall w (reached_end hrun)
  exact ⟨hold_encode w.subscriber.yielded, hold_received hnumbered⟩

end

/-! A stream that reads one sequence number before and after the observation expired. -/

def rowSize (_ : ExternalStatusRow) : Nat := 300

def workingThread (observedAt : Instant) : ExternalStatusRow :=
  { machine := "host-a", threadId := "t1", name := some "agent", dir := none, updatedAt := none,
    turnState :=
      { state := .working, evidence := .observed, source := .codexAppServer, turnId := some "turn",
        startedAt := none, observedAt := some observedAt, expiresAt := some (observedAt + ttlMs),
        reason := .nativeStatus, remedy := none } }

def renewedStream : List Event :=
  [.producerChanged "g2", .publish [workingThread 0] false 0, .take, .read 1000,
    .publish [workingThread 2000] false 2000, .take, .read 2001, .expire 2250, .take, .read 2251]

/-- The second publication falls between a taken notice and its read, so the same number is read
again, after the observation expired. -/
def expiredStream : List Event :=
  [.producerChanged "g2", .publish [workingThread 0] false 0, .take,
    .publish [workingThread 0] false 0, .read 1000, .take, .read 6000, .expire 6001, .take,
    .read 6001]

theorem readers_hold_published_renewed :
    ∃ w, run (step rowSize) (startWorld "1" "host-a" "g1") renewedStream = some w ∧
      ∀ received last, (∀ x ∈ received ++ [last], x ∈ emitted w.subscriber.yielded) →
        hold ((received ++ [last]).map Prod.snd) = none ∨
          hold ((received ++ [last]).map Prod.snd) = some last.1 := by
  have hruns : (run (step rowSize) (startWorld "1" "host-a" "g1") renewedStream).isSome = true := by
    decide
  obtain ⟨w, hrun⟩ := Option.isSome_iff_exists.mp hruns
  refine ⟨w, hrun, (readers_hold_published rowSize "1" "host-a" "g1" renewedStream w hrun ?_).2⟩
  exact along_of_check (C := keepsFreshness) (by decide)

/-- The reader that missed the expired snapshot applies the renewal that follows it, and holds a
live snapshot that was never published. -/
theorem renewal_extends_another_snapshot :
    ∃ w, run (step rowSize) (startWorld "1" "host-a" "g1") expiredStream = some w ∧
      ∃ first last held, [first, last].Sublist (emitted w.subscriber.yielded) ∧
        hold [first.2, last.2] = some held ∧ held ≠ last.1 ∧ held ∉ w.subscriber.yielded := by
  have hruns : ((run (step rowSize) (startWorld "1" "host-a" "g1") expiredStream).any fun w =>
      (emitted w.subscriber.yielded).head?.any fun first =>
      (emitted w.subscriber.yielded).getLast?.any fun last =>
        [first, last].isSublist (emitted w.subscriber.yielded) &&
          (hold [first.2, last.2]).any fun held =>
            decide (held ≠ last.1 ∧ held ∉ w.subscriber.yielded)) = true := by decide
  obtain ⟨w, hrun, hw⟩ := (Option.any_eq_true _ _).mp hruns
  obtain ⟨first, -, hw⟩ := (Option.any_eq_true _ _).mp hw
  obtain ⟨last, -, hw⟩ := (Option.any_eq_true _ _).mp hw
  obtain ⟨hsub, hheld⟩ := (Bool.and_eq_true _ _).mp hw
  obtain ⟨held, hhold, hother⟩ := (Option.any_eq_true _ _).mp hheld
  exact ⟨w, hrun, first, last, held, List.isSublist_iff_sublist.mp hsub, hhold,
    of_decide_eq_true hother⟩

end Ccmux.External
