/- Module: Ccmux/Chat/PassRace
   source: src/chat/deliver.ts (deliverPending), src/commands/stopHook.ts, src/commands/msgCancel.ts
   digest: A delivery pass against the other writers of the ack log; only the picked id is re-read. -/

import Ccmux.Lib.Machine
import Ccmux.Chat.Coalesce
import Ccmux.Chat.Store
import Ccmux.Chat.TurnProgress

namespace Ccmux.Chat.PassRace

open Ccmux.Lib.Machine
open Ccmux.Chat.Identity (ChatPrincipal ManagedPeer managedPeerKey)
open Ccmux.Chat.Message
open Ccmux.Chat.Settlement
open Ccmux.Chat.Coalesce
open Ccmux.Chat.Store (msgCancel)
open Ccmux.Chat.TurnProgress (advancePast armPickup)

/-- What a pass reads before it looks at the recipient, and holds until its end. -/
structure Snapshot where
  ledger : Ledger
  acks : AckLog
  cursors : ChatCursors
  now : Int

/-- A batch about to be typed, with the ack log as the final re-read found it. -/
structure Submission where
  snap : Snapshot
  recheck : AckLog
  pick : Pick
  batch : List ChatMessage

inductive Daemon where
  | resting
  | loaded (snap : Snapshot)
  | ready (submission : Submission)
  | acking (rows : AckLog)

/-- `writers` holds the rows each running Stop hook or `msg cancel` still has to append. -/
structure Race where
  ledger : Ledger
  acks : AckLog
  cursors : ChatCursors
  daemon : Daemon
  writers : List AckLog
  submissions : List Submission

/-- How `deliverToPane` ended: before the barrier, between barrier and Enter, or with Enter. -/
inductive Typing where
  | held | lost | typed
  deriving DecidableEq, Repr

inductive Event where
  | send (more : Ledger)
  | load (now : Int)
  | hold
  | recheck
  | submit (typing : Typing) (transcriptLine : Option Nat)
  | ack
  | stopHook (now : Int)
  | cancel (sender : ChatPrincipal) (task : String)
  | write (writer : Nat)
  | stop (writer : Nat)

section
variable (dateParse : String → Option Int) (recipientKey : String) (transcriptPickup : Bool)

/-- `nextDelivery` over what the pass loaded. -/
def Snapshot.next (snap : Snapshot) : Option Pick × ChatCursors × Bool :=
  nextDelivery dateParse snap.ledger recipientKey snap.cursors (loadAckedIds snap.acks) snap.now

/-- A conditional pick takes the letters waiting for the same boundary along, except where one
message id has to prove the pickup. -/
def Snapshot.batch (snap : Snapshot) (pick : Pick) : List ChatMessage :=
  if isConditional pick.msg && !transcriptPickup then
    coalesce dateParse snap.ledger recipientKey (loadAckedIds snap.acks) snap.now
  else [pick.msg]

/-- The pick and the re-read of its ack, directly before the batch is typed. -/
def recheck (w : Race) (snap : Snapshot) : Race :=
  let (picked, cursors, _) := snap.next dateParse recipientKey
  match picked with
  | none => { w with cursors, daemon := .resting }
  | some pick =>
    if isConditional pick.msg && decide (pick.msg.id ∈ loadAckedIds w.acks) then
      { w with cursors, daemon := .resting }
    else
      let batch := snap.batch dateParse recipientKey transcriptPickup pick
      { w with daemon := .ready { snap, recheck := w.acks, pick, batch } }

/-- What the submission leaves in the cursors file and still has to ack. -/
def submit (w : Race) (sub : Submission) (typing : Typing) (transcriptLine : Option Nat) : Race :=
  let cursors := (sub.snap.next dateParse recipientKey).2.1
  let armed := armPickup cursors recipientKey sub.pick sub.snap.now transcriptLine none
  match typing with
  | .held => { w with cursors, daemon := .resting }
  | .lost => { w with cursors := if transcriptPickup then armed else cursors, daemon := .resting }
  | .typed =>
    let typed := { w with submissions := w.submissions ++ [sub] }
    if transcriptPickup then { typed with cursors := armed, daemon := .resting }
    else if isConditional sub.pick.msg then
      { typed with cursors, daemon := .acking (sub.batch.map fun msg => ⟨msg.id, .daemon⟩) }
    else { typed with
      cursors := advancePast cursors recipientKey sub.pick.idx
      daemon := .resting }

/-- The Stop hook selects with fresh reads and records its acks before it emits. -/
def stopHook (w : Race) (now : Int) : AckLog :=
  (coalesce dateParse w.ledger recipientKey (loadAckedIds w.acks) now).map
    fun msg => ⟨msg.id, .hook⟩

def step (w : Race) : Event → Option Race
  | .send more => some { w with ledger := w.ledger ++ more }
  | .load now =>
    match w.daemon with
    | .resting => some { w with daemon := .loaded ⟨w.ledger, w.acks, w.cursors, now⟩ }
    | _ => none
  | .hold =>
    match w.daemon with
    | .loaded snap =>
        some { w with cursors := (snap.next dateParse recipientKey).2.1, daemon := .resting }
    | _ => none
  | .recheck =>
    match w.daemon with
    | .loaded snap => some (recheck dateParse recipientKey transcriptPickup w snap)
    | _ => none
  | .submit typing transcriptLine =>
    match w.daemon with
    | .ready sub => some (submit dateParse recipientKey transcriptPickup w sub typing transcriptLine)
    | _ => none
  | .ack =>
    match w.daemon with
    | .acking (row :: rows) => some { w with acks := w.acks ++ [row], daemon := .acking rows }
    | .acking [] => some { w with daemon := .resting }
    | _ => none
  | .stopHook now =>
      some { w with writers := w.writers ++ [stopHook dateParse recipientKey w now] }
  | .cancel sender task =>
      some { w with writers := w.writers ++ [msgCancel w.ledger w.acks sender task] }
  | .write writer =>
    match w.writers[writer]? with
    | some (row :: rows) =>
        some { w with acks := w.acks ++ [row], writers := w.writers.set writer rows }
    | _ => none
  | .stop writer => some { w with writers := w.writers.eraseIdx writer }

/-- No conditional letter of the batch was in the ack log at the final re-read. -/
def Submission.Clean (sub : Submission) : Prop :=
  ∀ msg ∈ sub.batch, isConditional msg = true → msg.id ∉ loadAckedIds sub.recheck

/-- An immediate letter of the recipient stands at or after the cursor the pass loaded. -/
def Snapshot.ImmediateWaits (snap : Snapshot) : Prop :=
  ∃ idx msg, position snap.cursors.delivered recipientKey ≤ idx ∧
    snap.ledger.letter idx = some msg ∧ immediateTo recipientKey msg = true

/-- The pass loaded an immediate letter, or proves its pickup by one id, or no row appended between
its load and its re-read names a letter that waited at the load and fits the batch. -/
def Submission.Undisturbed (sub : Submission) : Prop :=
  let waiting := waitingFor dateParse sub.snap.ledger recipientKey (loadAckedIds sub.snap.acks)
    sub.snap.now
  sub.snap.ImmediateWaits recipientKey ∨ transcriptPickup = true ∨
    ∀ msg ∈ waiting, Fits (personFirst waiting) msg.id →
      ∀ row ∈ sub.recheck.drop sub.snap.acks.length, row.id ≠ msg.id

/-- What the re-read establishes about a submission. -/
structure Submission.Checked (sub : Submission) : Prop where
  grown : sub.snap.acks <+: sub.recheck
  picked : (sub.snap.next dateParse recipientKey).1 = some sub.pick
  unacked : isConditional sub.pick.msg = true → sub.pick.msg.id ∉ loadAckedIds sub.recheck
  batched : sub.batch = sub.snap.batch dateParse recipientKey transcriptPickup sub.pick

def Daemon.Honest (acks : AckLog) : Daemon → Prop
  | .loaded snap => snap.acks <+: acks
  | .ready sub => sub.Checked dateParse recipientKey transcriptPickup
  | _ => True

structure Honest (w : Race) : Prop where
  daemon : w.daemon.Honest dateParse recipientKey transcriptPickup w.acks
  typed : ∀ sub ∈ w.submissions, sub.Checked dateParse recipientKey transcriptPickup

variable {dateParse recipientKey transcriptPickup}

theorem Daemon.Honest.mono {d : Daemon} {acks more : AckLog}
    (h : d.Honest dateParse recipientKey transcriptPickup acks) :
    d.Honest dateParse recipientKey transcriptPickup (acks ++ more) := by
  cases d with
  | loaded snap => exact h.trans (List.prefix_append _ _)
  | _ => exact h

variable {w : Race}

theorem Honest.recheck {snap : Snapshot} (h : Honest dateParse recipientKey transcriptPickup w)
    (hloaded : w.daemon = .loaded snap) :
    Honest dateParse recipientKey transcriptPickup
      (recheck dateParse recipientKey transcriptPickup w snap) := by
  have hgrown : snap.acks <+: w.acks := by
    have := h.daemon
    rwa [hloaded] at this
  rcases hnext : snap.next dateParse recipientKey with ⟨picked, cursors, moved⟩
  cases picked with
  | none =>
    simp only [PassRace.recheck, hnext]
    exact ⟨trivial, h.typed⟩
  | some pick =>
    by_cases hacked : (isConditional pick.msg && decide (pick.msg.id ∈ loadAckedIds w.acks)) = true
    · simp only [PassRace.recheck, hnext, if_pos hacked]
      exact ⟨trivial, h.typed⟩
    · simp only [PassRace.recheck, hnext, if_neg hacked]
      refine ⟨⟨hgrown, by rw [hnext], ?_, rfl⟩, h.typed⟩
      intro hcond hmem
      exact hacked (by simpa [hcond] using hmem)

variable {sub : Submission}

theorem Honest.submit {typing : Typing} {line : Option Nat}
    (h : Honest dateParse recipientKey transcriptPickup w) (hready : w.daemon = .ready sub) :
    Honest dateParse recipientKey transcriptPickup
      (submit dateParse recipientKey transcriptPickup w sub typing line) := by
  have hchecked : sub.Checked dateParse recipientKey transcriptPickup := by
    have := h.daemon
    rwa [hready] at this
  have htyped : ∀ x ∈ w.submissions ++ [sub],
      x.Checked dateParse recipientKey transcriptPickup := by
    intro x hx
    rcases List.mem_append.mp hx with hold | hnew
    · exact h.typed x hold
    · obtain rfl := List.mem_singleton.mp hnew
      exact hchecked
  cases typing with
  | held | lost => exact ⟨trivial, h.typed⟩
  | typed =>
    simp only [PassRace.submit]
    split
    · exact ⟨trivial, htyped⟩
    · split
      · exact ⟨trivial, htyped⟩
      · exact ⟨trivial, htyped⟩

theorem Honest.step (w : Race) (e : Event) (v : Race)
    (h : Honest dateParse recipientKey transcriptPickup w)
    (hstep : step dateParse recipientKey transcriptPickup w e = some v) :
    Honest dateParse recipientKey transcriptPickup v := by
  cases e with
  | send _ | stopHook _ | cancel _ _ | stop _ =>
    obtain rfl := Option.some.inj hstep
    exact { h with }
  | load now =>
    simp only [PassRace.step] at hstep
    split at hstep
    · obtain rfl := Option.some.inj hstep
      exact ⟨List.prefix_refl _, h.typed⟩
    · cases hstep
  | hold =>
    simp only [PassRace.step] at hstep
    split at hstep
    · obtain rfl := Option.some.inj hstep
      exact ⟨trivial, h.typed⟩
    · cases hstep
  | recheck =>
    simp only [PassRace.step] at hstep
    split at hstep
    · next hloaded =>
      obtain rfl := Option.some.inj hstep
      exact h.recheck hloaded
    · cases hstep
  | submit typing line =>
    simp only [PassRace.step] at hstep
    split at hstep
    · next hready =>
      obtain rfl := Option.some.inj hstep
      exact h.submit hready
    · cases hstep
  | ack =>
    simp only [PassRace.step] at hstep
    split at hstep
    · obtain rfl := Option.some.inj hstep
      exact ⟨trivial, h.typed⟩
    · obtain rfl := Option.some.inj hstep
      exact ⟨trivial, h.typed⟩
    · cases hstep
  | write writer =>
    simp only [PassRace.step] at hstep
    split at hstep
    · obtain rfl := Option.some.inj hstep
      exact ⟨h.daemon.mono, h.typed⟩
    · cases hstep

theorem Submission.Checked.immediate_iff (h : sub.Checked dateParse recipientKey transcriptPickup) :
    isConditional sub.pick.msg = false ↔ sub.snap.ImmediateWaits recipientKey := by
  have hpicked : (pickPendingDelivery dateParse sub.snap.ledger recipientKey
      (position sub.snap.cursors.delivered recipientKey) (loadAckedIds sub.snap.acks)
      sub.snap.now).1 = some sub.pick := h.picked
  rcases pickPendingDelivery_cases dateParse sub.snap.ledger recipientKey
      (position sub.snap.cursors.delivered recipientKey) (loadAckedIds sub.snap.acks)
      sub.snap.now with ⟨pick, heq, hle, hletter, htest, _⟩ | ⟨_, hnone, hcond⟩
  · rw [heq] at hpicked
    obtain rfl := Option.some.inj hpicked
    have himm := (immediateTo_iff.mp htest).2
    exact ⟨fun _ => ⟨sub.pick.idx, sub.pick.msg, hle, hletter, htest⟩, fun _ => himm⟩
  · have hpick := ((conditionalTo_iff dateParse).mp (hcond sub.pick hpicked).2).2.1
    constructor
    · intro himm
      rw [hpick] at himm
      cases himm
    · rintro ⟨idx, msg, hidx, hletter, himm⟩
      have := hnone idx hidx msg hletter
      rw [himm] at this
      cases this

theorem Submission.Checked.mem_recheck {id : String}
    (h : sub.Checked dateParse recipientKey transcriptPickup)
    (hload : id ∉ loadAckedIds sub.snap.acks) :
    id ∈ loadAckedIds sub.recheck ↔
      ∃ row ∈ sub.recheck.drop sub.snap.acks.length, row.id = id := by
  obtain ⟨rows, hrows⟩ := h.grown
  rw [← hrows, loadAckedIds_append, Finset.mem_union, List.drop_left]
  constructor
  · rintro (hold | hnew)
    · exact absurd hold hload
    · exact mem_loadAckedIds.mp hnew
  · exact fun hnew => Or.inr (mem_loadAckedIds.mpr hnew)

theorem Submission.Checked.clean_iff (h : sub.Checked dateParse recipientKey transcriptPickup) :
    sub.Clean ↔ sub.Undisturbed dateParse recipientKey transcriptPickup := by
  simp only [Submission.Undisturbed, ← h.immediate_iff]
  by_cases himm : isConditional sub.pick.msg = false
  · have hbatch : sub.batch = [sub.pick.msg] := by simp [h.batched, Snapshot.batch, himm]
    refine iff_of_true ?_ (Or.inl himm)
    intro msg hmsg hcond
    rw [hbatch, List.mem_singleton] at hmsg
    rw [hmsg, himm] at hcond
    cases hcond
  have hcond : isConditional sub.pick.msg = true := by simpa using himm
  by_cases hproof : transcriptPickup = true
  · have hbatch : sub.batch = [sub.pick.msg] := by simp [h.batched, Snapshot.batch, hproof]
    refine iff_of_true ?_ (Or.inr (Or.inl hproof))
    intro msg hmsg _
    rw [hbatch, List.mem_singleton] at hmsg
    rw [hmsg]
    exact h.unacked hcond
  have hbatch : sub.batch = coalesce dateParse sub.snap.ledger recipientKey
      (loadAckedIds sub.snap.acks) sub.snap.now := by
    simp [h.batched, Snapshot.batch, hcond, hproof]
  simp only [Submission.Clean, hbatch, mem_coalesce, himm, hproof, Bool.true_eq_false,
    Bool.false_eq_true, false_or]
  constructor
  · intro hclean msg hmsg hfits row hrow hid
    obtain ⟨_, hletter, hload, _⟩ := isWaiting_iff.mp (mem_waitingFor.mp hmsg).2
    exact hclean msg ⟨hmsg, hfits⟩ hletter ((h.mem_recheck hload).mpr ⟨row, hrow, hid⟩)
  · rintro hquiet msg ⟨hmsg, hfits⟩ _ hmem
    obtain ⟨_, _, hload, _⟩ := isWaiting_iff.mp (mem_waitingFor.mp hmsg).2
    obtain ⟨row, hrow, hid⟩ := (h.mem_recheck hload).mp hmem
    exact hquiet msg hmsg hfits row hrow hid

/-- Over every interleaving, the daemon types no letter acked before its re-read exactly when every
submission was undisturbed between its load and its re-read. -/
theorem submissions_clean_iff {w t : Race} {events : List Event}
    (hresting : w.daemon = .resting) (hnone : w.submissions = [])
    (hrun : run (PassRace.step dateParse recipientKey transcriptPickup) w events = some t) :
    (∀ sub ∈ t.submissions, ∀ msg ∈ sub.batch, isConditional msg = true →
        msg.id ∉ loadAckedIds sub.recheck) ↔
      ∀ sub ∈ t.submissions, sub.Undisturbed dateParse recipientKey transcriptPickup := by
  have hw : Honest dateParse recipientKey transcriptPickup w :=
    ⟨by rw [hresting]; trivial, by simp [hnone]⟩
  have ht : Honest dateParse recipientKey transcriptPickup t :=
    run_invariant Honest.step hrun hw
  exact forall₂_congr fun sub hsub => (ht.typed sub hsub).clean_iff

end

def builder : ManagedPeer := ⟨"host", .claude, "builder", "t1"⟩

/-- A deferred letter of the shell to the builder, under a task. -/
def deferred (id task : String) : ChatMessage :=
  { id, ts := "2026-01-01T00:00:00Z", sender := .cli "host", target := .managed builder, body := id,
    task := some task, defer := true }

/-- Two deferred letters wait; the second is cancelled after the pass loaded the ack log. -/
def overtaken : Race :=
  { ledger := [some (deferred "a" "first"), some (deferred "b" "second")]
    acks := []
    cursors := ChatCursors.empty
    daemon := .resting
    writers := []
    submissions := [] }

def overtakenEvents : List Event :=
  [.load 0, .cancel (.cli "host") "second", .write 0, .recheck, .submit .typed none]

theorem cancelled_companion_is_typed :
    ∃ t, run (PassRace.step (fun _ => none) (managedPeerKey builder) false) overtaken
        overtakenEvents = some t ∧
      ∃ sub ∈ t.submissions, ∃ msg ∈ sub.batch, isConditional msg = true ∧
        msg.id ∈ loadAckedIds sub.recheck := by
  refine ⟨_, rfl, ?_⟩
  decide

theorem submissions_clean_iff_overtaken :
    ∃ t, run (PassRace.step (fun _ => none) (managedPeerKey builder) false) overtaken
        overtakenEvents = some t ∧
      ((∀ sub ∈ t.submissions, ∀ msg ∈ sub.batch, isConditional msg = true →
          msg.id ∉ loadAckedIds sub.recheck) ↔
        ∀ sub ∈ t.submissions, sub.Undisturbed (fun _ => none) (managedPeerKey builder) false) := by
  have hresting : overtaken.daemon = .resting := rfl
  have hrun : run (PassRace.step (fun _ => none) (managedPeerKey builder) false) overtaken
      overtakenEvents = some _ := rfl
  exact ⟨_, hrun, submissions_clean_iff hresting rfl hrun⟩

end Ccmux.Chat.PassRace
