/- Module: Ccmux/Fleet/FlushRun
   source: src/fleet/flush.ts
   digest: How long a letter waits for its attempt, when the letters before it are settled. -/

import Ccmux.Fleet.Flush
import Ccmux.Lib.Machine
import Mathlib

namespace Ccmux.Fleet.Flush

open Ccmux.Fleet.Address
open Ccmux.Fleet.Outbox
open Ccmux.Lib.Machine

/-- This machine can reach the peer the letter is for. -/
def Reaches (m : MachineConfig) (rec : Outbound) : Prop :=
  match rec.envelope.target with
  | .managed target =>
    ∃ sshAlias machine session,
      routeFor (target.machine ++ ":" ++ target.session) m = .remote sshAlias machine session
  | .codexApp peer => peer.machine ∈ peersOf m
  | _ => False

/-- The passes of a run that read the outbox. -/
def readPasses : List Event → Nat
  | [] => 0
  | .send _ :: rest => readPasses rest
  | .pass p :: rest => readPasses rest + if p.readable then 1 else 0

section
variable {dateParse : String → Option Int}

/-- While the letter is a candidate, a pass has it among its three or settles one of the three. -/
def Clears (dateParse : String → Option Int) (rec : Outbound) (w : World) : Event → Prop
  | .send _ => True
  | .pass p =>
    p.readable = true → rec ∈ retryCandidates dateParse w.outbox w.acked p.now →
      (∃ target, rec.envelope.target = .managed target) ∧
        (rec ∈ slots dateParse w p ∨ ∃ other ∈ slots dateParse w p,
          (flushOne p.config (p.answer other) other).settles = true ∧
            p.written (outboundId other) = true)

theorem flushRecords (p : Pass) (recs : List Outbound) (w : World) :
    recs.foldl (flushRecord p) w =
      { w with
        acked := w.acked ++ (recs.filter fun rec =>
          (flushOne p.config (p.answer rec) rec).settles && p.written (outboundId rec)).map outboundId
        attempts := w.attempts ++ (recs.filter fun rec =>
          (flushOne p.config (p.answer rec) rec).attempts).map outboundId } := by
  induction recs generalizing w with
  | nil => simp
  | cons rec rest ih =>
    rw [List.foldl_cons, ih]
    simp only [flushRecord, List.filter_cons]
    split <;> split <;> simp_all

theorem flushOutbox_outbox (w : World) (p : Pass) :
    (flushOutbox dateParse w p).outbox = w.outbox := by
  rw [flushOutbox, flushRecords]

theorem flushOutbox_now (w : World) (p : Pass) : (flushOutbox dateParse w p).now = p.now := by
  rw [flushOutbox, flushRecords]

variable {w v : World} {p : Pass} {rec : Outbound} {pre : List Outbound}

theorem mem_acked {id : String} :
    id ∈ (flushOutbox dateParse w p).acked ↔
      id ∈ w.acked ∨ ∃ rec ∈ slots dateParse w p,
        (flushOne p.config (p.answer rec) rec).settles = true ∧
          p.written (outboundId rec) = true ∧ outboundId rec = id := by
  rw [flushOutbox, flushRecords]
  simp [and_assoc]

theorem count_attempts_le (w : World) (p : Pass) (id : String) :
    w.attempts.count id ≤ (flushOutbox dateParse w p).attempts.count id := by
  rw [flushOutbox, flushRecords, List.count_append]
  exact Nat.le_add_right _ _

theorem count_attempts_lt (h : rec ∈ slots dateParse w p)
    (hattempt : (flushOne p.config (p.answer rec) rec).attempts = true) :
    w.attempts.count (outboundId rec) <
      (flushOutbox dateParse w p).attempts.count (outboundId rec) := by
  rw [flushOutbox, flushRecords, List.count_append]
  have hmem : outboundId rec ∈ ((slots dateParse w p).filter fun rec =>
      (flushOne p.config (p.answer rec) rec).attempts).map outboundId :=
    List.mem_map_of_mem (List.mem_filter.mpr ⟨h, hattempt⟩)
  exact Nat.lt_add_of_pos_right (List.count_pos_iff.mpr hmem)

theorem step_now_le {e : Event} (h : step dateParse w e = some v) : w.now ≤ v.now := by
  cases e with
  | send row =>
    obtain rfl := Option.some.inj h
    exact le_rfl
  | pass p =>
    simp only [step] at h
    split at h
    · rename_i hle
      obtain rfl := Option.some.inj h
      rw [flushOutbox_now]
      exact hle
    · cases h

theorem step_count_le {e : Event} (h : step dateParse w e = some v) (id : String) :
    w.attempts.count id ≤ v.attempts.count id := by
  cases e with
  | send row =>
    obtain rfl := Option.some.inj h
    exact le_rfl
  | pass p =>
    simp only [step] at h
    split at h
    · obtain rfl := Option.some.inj h
      exact count_attempts_le w p id
    · cases h

theorem run_now_le {events : List Event} (h : run (step dateParse) w events = some v) :
    w.now ≤ v.now :=
  run_relation (R := fun a b : World => a.now ≤ b.now) (fun _ => le_rfl)
    (fun _ _ _ hab hbc => hab.trans hbc) (fun _ _ _ hstep => step_now_le hstep) h

theorem run_count_le {events : List Event} (h : run (step dateParse) w events = some v)
    (id : String) :
    w.attempts.count id ≤ v.attempts.count id :=
  run_relation (R := fun a b : World => a.attempts.count id ≤ b.attempts.count id) (fun _ => le_rfl)
    (fun _ _ _ hab hbc => hab.trans hbc) (fun _ _ _ hstep => step_count_le hstep id) h

theorem isStale_later {now later windowMs : Int} {r : Outbound} (hle : now ≤ later)
    (h : isStale dateParse later windowMs r = false) : isStale dateParse now windowMs r = false := by
  unfold isStale at h ⊢
  cases hparse : dateParse (outboundTimestamp r) with
  | none => simp [hparse] at h
  | some at_ =>
    simp only [hparse, decide_eq_false_iff_not, not_lt] at h ⊢
    omega

theorem Due.back {acked more : List String} {now later windowMs : Int} {r : Outbound}
    (hacked : ∀ id ∈ acked, id ∈ more) (hle : now ≤ later)
    (h : Due dateParse more later windowMs r) : Due dateParse acked now windowMs r :=
  ⟨h.1, fun hin => h.2.1 (hacked _ hin), isStale_later hle h.2.2⟩

theorem ahead_le {acked more : List String} {now later windowMs : Int}
    (hacked : ∀ id ∈ acked, id ∈ more) (hle : now ≤ later) :
    (retryFrom dateParse more later windowMs [] pre).length ≤
      (retryFrom dateParse acked now windowMs [] pre).length := by
  have hsub : (retryFrom dateParse more later windowMs [] pre).map outboundId ⊆
      (retryFrom dateParse acked now windowMs [] pre).map outboundId := by
    intro id hid
    obtain ⟨hseen, r, hr, hdue, hrid⟩ := mem_retryFrom.mp hid
    exact mem_retryFrom.mpr ⟨hseen, r, hr, hdue.back hacked hle, hrid⟩
  have hlen := (List.subperm_of_subset (nodup_retryFrom _ _ _ _ _) hsub).length_le
  simpa using hlen

theorem ahead_lt {acked more : List String} {now windowMs : Int} {id : String}
    (hacked : ∀ id ∈ acked, id ∈ more)
    (hid : id ∈ (retryFrom dateParse acked now windowMs [] pre).map outboundId) (hmore : id ∈ more) :
    (retryFrom dateParse more now windowMs [] pre).length <
      (retryFrom dateParse acked now windowMs [] pre).length := by
  have hsub : (retryFrom dateParse more now windowMs [] pre).map outboundId ⊆
      ((retryFrom dateParse acked now windowMs [] pre).map outboundId).erase id := by
    intro other hother
    obtain ⟨hseen, r, hr, hdue, hrid⟩ := mem_retryFrom.mp hother
    have hne : other ≠ id := by
      intro heq
      rw [heq] at hrid
      exact hdue.2.1 (by rw [hrid]; exact hmore)
    refine (List.mem_erase_of_ne hne).mpr ?_
    exact mem_retryFrom.mpr ⟨hseen, r, hr, hdue.back hacked le_rfl, hrid⟩
  have hlen := (List.subperm_of_subset (nodup_retryFrom _ _ _ _ _) hsub).length_le
  have hpos := List.length_pos_of_mem hid
  rw [List.length_erase_of_mem hid] at hlen
  simp only [List.length_map] at hlen hpos
  omega

theorem attempts_of_reaches (h : Reaches p.config rec)
    (hmanaged : ∃ target, rec.envelope.target = .managed target) :
    (flushOne p.config (p.answer rec) rec).attempts = true ∧ peersOf p.config ≠ [] := by
  obtain ⟨target, htarget⟩ := hmanaged
  simp only [Reaches, htarget] at h
  obtain ⟨sshAlias, machine, session, hroute⟩ := h
  refine ⟨?_, List.ne_nil_of_mem (peersOf_of_remote hroute)⟩
  simp only [flushOne, dispatch, htarget, hroute, readAnswer]
  split
  · rfl
  · split <;> rfl

/-- The letters before a row that is due, counted. -/
def ahead (dateParse : String → Option Int) (w : World) (now : Int) (pre : List Outbound) : Nat :=
  (retryFrom dateParse w.acked now RETRY_WINDOW_MS [] pre).length

/-- The row of a letter that waits, with the rows before it. -/
structure Waits (dateParse : String → Option Int) (w : World) (pre : List Outbound)
    (rec : Outbound) : Prop where
  place : ∃ post, w.outbox = pre ++ rec :: post
  due : Due dateParse w.acked w.now RETRY_WINDOW_MS rec
  first : ∀ r ∈ pre, Due dateParse w.acked w.now RETRY_WINDOW_MS r → outboundId r ≠ outboundId rec

theorem Waits.candidates (h : Waits dateParse w pre rec) {now : Int} (hle : w.now ≤ now)
    (hwindow : isStale dateParse now RETRY_WINDOW_MS rec = false) :
    ∃ after, retryCandidates dateParse w.outbox w.acked now =
      retryFrom dateParse w.acked now RETRY_WINDOW_MS [] pre ++ rec :: after := by
  obtain ⟨post, hpost⟩ := h.place
  rw [retryCandidates, hpost]
  refine retryFrom_append post ⟨h.due.1, h.due.2.1, hwindow⟩ (fun hin => nomatch hin) ?_
  intro r hr hdue
  exact h.first r hr (hdue.back (fun _ hid => hid) hle)

theorem Waits.later (h : Waits dateParse w pre rec) (houtbox : ∃ more, v.outbox = w.outbox ++ more)
    (hacked : ∀ id ∈ w.acked, id ∈ v.acked) (hnow : w.now ≤ v.now)
    (hunacked : outboundId rec ∉ v.acked)
    (hwindow : isStale dateParse v.now RETRY_WINDOW_MS rec = false) : Waits dateParse v pre rec := by
  obtain ⟨post, hpost⟩ := h.place
  obtain ⟨more, hmore⟩ := houtbox
  refine ⟨⟨post ++ more, by rw [hmore, hpost]; simp⟩, ⟨h.due.1, hunacked, hwindow⟩, ?_⟩
  intro r hr hdue
  exact h.first r hr (hdue.back hacked hnow)

/-- One pass over a letter that waits: it is attempted, or some letter before it is settled. -/
theorem Waits.pass (h : Waits dateParse w pre rec) (hle : w.now ≤ p.now)
    (hreadable : p.readable = true)
    (hreach : Reaches p.config rec) (hwindow : isStale dateParse p.now RETRY_WINDOW_MS rec = false)
    (hclears : Clears dateParse rec w (.pass p)) :
    w.attempts.count (outboundId rec) <
        (flushOutbox dateParse w p).attempts.count (outboundId rec) ∨
      (Waits dateParse (flushOutbox dateParse w p) pre rec ∧
        ahead dateParse (flushOutbox dateParse w p) p.now pre < ahead dateParse w p.now pre) := by
  obtain ⟨after, hcandidates⟩ := h.candidates hle hwindow
  obtain ⟨hmanaged, htaken⟩ := hclears hreadable (by rw [hcandidates]; simp)
  obtain ⟨hattempt, hpeers⟩ := attempts_of_reaches hreach hmanaged
  by_cases hslot : rec ∈ slots dateParse w p
  · exact Or.inl (count_attempts_lt hslot hattempt)
  · obtain ⟨other, hother, hsettles, hwritten⟩ := htaken.resolve_left hslot
    have hslots : slots dateParse w p =
        (retryFrom dateParse w.acked p.now RETRY_WINDOW_MS [] pre ++ rec :: after).take
          MAX_PER_TICK := by
      rw [slots, if_neg (by simp [hpeers, hreadable]), hcandidates]
    -- the letter is not among the three, so the three are all before it
    have hlong : MAX_PER_TICK ≤
        (retryFrom dateParse w.acked p.now RETRY_WINDOW_MS [] pre).length := by
      by_contra hshort
      apply hslot
      rw [hslots, List.take_append]
      refine List.mem_append_right _ ?_
      obtain ⟨n, hn⟩ := Nat.exists_eq_succ_of_ne_zero (Nat.sub_ne_zero_of_lt (not_le.mp hshort))
      rw [hn]
      exact List.mem_cons_self
    rw [List.take_append_of_le_length hlong] at hslots
    have hbefore : ∀ r ∈ slots dateParse w p, outboundId r ∈
        (retryFrom dateParse w.acked p.now RETRY_WINDOW_MS [] pre).map outboundId := by
      intro r hr
      rw [hslots] at hr
      exact List.mem_map_of_mem (List.mem_of_mem_take hr)
    have hacked : ∀ id ∈ w.acked, id ∈ (flushOutbox dateParse w p).acked :=
      fun id hid => mem_acked.mpr (Or.inl hid)
    have hnow : w.now ≤ (flushOutbox dateParse w p).now := by
      rw [flushOutbox_now]
      exact hle
    refine Or.inr ⟨h.later ⟨[], ?_⟩ hacked hnow ?_ ?_, ?_⟩
    · rw [flushOutbox_outbox, List.append_nil]
    · intro hin
      rcases mem_acked.mp hin with hold | ⟨r, hr, _, _, hid⟩
      · exact h.due.2.1 hold
      · obtain ⟨_, s, hs, hdue, hsid⟩ := mem_retryFrom.mp (hbefore r hr)
        refine h.first s hs (hdue.back (fun _ hin => hin) hle) ?_
        rw [hsid, hid]
    · rw [flushOutbox_now]
      exact hwindow
    · exact ahead_lt hacked (hbefore other hother)
        (mem_acked.mpr (Or.inr ⟨other, hother, hsettles, hwritten, rfl⟩))

theorem flushOutbox_unreadable (h : p.readable = false) :
    flushOutbox dateParse w p = { w with now := p.now } := by
  simp [flushOutbox, slots, h]

theorem attempted_of_waits {events : List Event} (hrun : run (step dateParse) w events = some v)
    (hwaits : Waits dateParse w pre rec)
    (hreach : ∀ p, Event.pass p ∈ events → Reaches p.config rec)
    (hwindow : isStale dateParse v.now RETRY_WINDOW_MS rec = false)
    (hpasses : ahead dateParse w w.now pre < readPasses events)
    (hclears : Along (step dateParse) (Clears dateParse rec) w events) :
    w.attempts.count (outboundId rec) < v.attempts.count (outboundId rec) := by
  induction events generalizing w with
  | nil => exact absurd hpasses (Nat.not_lt_zero _)
  | cons e events ih =>
    obtain ⟨m, hm, hrest⟩ := run_cons.mp hrun
    have hreach' : ∀ p, Event.pass p ∈ events → Reaches p.config rec :=
      fun p hp => hreach p (List.mem_cons_of_mem _ hp)
    have hclears' := hclears.2 m hm
    have hlater := run_now_le hrest
    cases e with
    | send row =>
      obtain rfl := Option.some.inj hm
      have hstill := hwaits.later (v := { w with outbox := w.outbox ++ [row] }) ⟨[row], rfl⟩
        (fun _ hid => hid) le_rfl hwaits.due.2.1 hwaits.due.2.2
      have hcount := ih hrest hstill hreach' hpasses hclears'
      exact hcount
    | pass p =>
      simp only [step, Option.ite_none_right_eq_some, Option.some.injEq] at hm
      obtain ⟨hle, rfl⟩ := hm
      rw [flushOutbox_now] at hlater
      have hnow := isStale_later hlater hwindow
      have hclock : ahead dateParse w p.now pre ≤ ahead dateParse w w.now pre :=
        ahead_le (fun _ hid => hid) hle
      by_cases hreadable : p.readable = true
      · simp only [readPasses, hreadable, if_true] at hpasses
        rcases hwaits.pass hle hreadable (hreach p List.mem_cons_self) hnow hclears.1 with
          hattempted | ⟨hstill, hfewer⟩
        · exact hattempted.trans_le (run_count_le hrest _)
        · have hcount := ih hrest hstill hreach' (by rw [flushOutbox_now]; omega) hclears'
          exact (count_attempts_le w p _).trans_lt hcount
      · have hunreadable : p.readable = false := by simpa using hreadable
        simp only [readPasses, hunreadable, Bool.false_eq_true, if_false, Nat.add_zero] at hpasses
        rw [flushOutbox_unreadable hunreadable] at hrest hclears'
        have hstill := hwaits.later (v := { w with now := p.now }) ⟨[], by simp⟩ (fun _ hid => hid)
          hle hwaits.due.2.1 hnow
        have hcount := ih hrest hstill hreach' (hclock.trans_lt hpasses) hclears'
        exact hcount

/-- A letter that waits is attempted within one pass more than there are candidates before it, when
every pass until then has it among its three or settles one of the three. -/
theorem letter_is_attempted {events : List Event} {w v : World} {rec : Outbound}
    {before after : List Outbound} (hrun : run (step dateParse) w events = some v)
    (hwaits : retryCandidates dateParse w.outbox w.acked w.now = before ++ rec :: after)
    (hreach : ∀ p, Event.pass p ∈ events → Reaches p.config rec)
    (hwindow : isStale dateParse v.now RETRY_WINDOW_MS rec = false)
    (hpasses : before.length < readPasses events)
    (hclears : Along (step dateParse) (Clears dateParse rec) w events) :
    w.attempts.count (outboundId rec) < v.attempts.count (outboundId rec) := by
  obtain ⟨pre, post, hrows, hpre, hdue, _, hfirst⟩ := retryFrom_split hwaits
  have hahead : ahead dateParse w w.now pre = before.length := by rw [ahead, hpre]
  exact attempted_of_waits hrun ⟨⟨post, hrows⟩, hdue, hfirst⟩ hreach hwindow
    (by rw [hahead]; exact hpasses) hclears

end

section
open Ccmux.Chat.Identity (ChatTarget)

/-- A send that failed, with a letter of the given id and target. -/
def failedSend (id : String) (target : ChatTarget) : Outbound :=
  { envelope :=
      { id := id
        ts := "2026-01-01T00:00:00.000Z"
        sender := .cli "here"
        target := target
        body := "done"
        defer := false }
    result := ⟨false, "transport failed"⟩ }

def managedSend : Outbound := failedSend "m1" (.managed ⟨"dev", .claude, "api", "5e1f"⟩)

def appSend (id : String) : Outbound := failedSend id (.codexApp ⟨"dev", "7c2a", none⟩)

/-- The peer is reachable and accepts everything. -/
def acceptingPass : Pass :=
  { now := 0
    config := ⟨"here", [("dev", "dev")], []⟩
    readable := true
    answer := fun _ => ⟨false, 0, false⟩
    written := fun _ => true }

def sent (rows : List Outbound) : World := ⟨rows, [], 0, []⟩

theorem managedSend_reaches : Reaches acceptingPass.config managedSend :=
  ⟨some "dev", "dev", "api", by decide⟩

theorem letter_is_attempted_alone :
    ∃ v, run (step fun _ => some 0) (sent [managedSend]) [.pass acceptingPass] = some v ∧
      v.attempts.count "m1" = 1 ∧ 0 < v.attempts.count (outboundId managedSend) := by
  refine ⟨_, rfl, by decide, ?_⟩
  have hclears : Along (step fun _ => some 0) (Clears (fun _ => some 0) managedSend)
      (sent [managedSend]) [.pass acceptingPass] := by
    refine ⟨fun _ _ => ⟨⟨_, rfl⟩, Or.inl (by decide)⟩, fun _ _ => trivial⟩
  have hreach : ∀ p, Event.pass p ∈ [Event.pass acceptingPass] → Reaches p.config managedSend := by
    intro p hp
    obtain rfl := Event.pass.inj (List.mem_singleton.mp hp)
    exact managedSend_reaches
  have hwaits : retryCandidates (fun _ => some 0) (sent [managedSend]).outbox [] 0 =
      [] ++ managedSend :: [] := rfl
  exact letter_is_attempted rfl hwaits hreach (by decide) (by decide) hclears

/-- Letters to a Codex App thread keep the three slots of every pass. -/
theorem app_letters_keep_the_slots :
    ¬ ∀ (events : List Event) (w v : World) (rec : Outbound) (before after : List Outbound),
      run (step fun _ => some 0) w events = some v →
      retryCandidates (fun _ => some 0) w.outbox w.acked w.now = before ++ rec :: after →
      (∀ p, Event.pass p ∈ events → Reaches p.config rec) →
      isStale (fun _ => some 0) v.now RETRY_WINDOW_MS rec = false →
      before.length < readPasses events →
      w.attempts.count (outboundId rec) < v.attempts.count (outboundId rec) := by
  intro h
  have hreach : ∀ p, Event.pass p ∈ List.replicate 4 (Event.pass acceptingPass) →
      Reaches p.config managedSend := by
    intro p hp
    obtain rfl := Event.pass.inj (List.eq_of_mem_replicate hp)
    exact managedSend_reaches
  have hcount := h (List.replicate 4 (.pass acceptingPass))
    (sent [appSend "a1", appSend "a2", appSend "a3", managedSend]) _ managedSend
    [appSend "a1", appSend "a2", appSend "a3"] [] rfl rfl hreach (by decide) (by decide)
  exact absurd hcount (by decide)

end

end Ccmux.Fleet.Flush
